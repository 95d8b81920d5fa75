import Qemu.Block.HostIo
import Qemu.Lib.BigEndian
import Qemu.Lib.Runs

namespace Qemu.Block

open Lib Function

/-!
# The L2 table cache of qcow2 (`block/qcow2-cluster.c`)

Sixteen L2 tables are kept in memory, the least used one makes room for another.  What happens
besides (the host, the refcounts, snapshots, the other requests) is up to an environment, which says
what is written to the image, what is allocated, and which requests of the host fail.

* `l2Load`, `l2Allocate`, `getClusterTable` — a table is looked up, or made;
* `allocClusterLinkL2`, `allocCompressedClusterOffset` — entries are changed;
* `L2Sound` — the cached tables are those of the image, each of them is cached once;
* `L2Action.Fine` — where the tables of the image are left alone and no change is lost;
* `l2_cache_sound` — runs of such actions.
-/

/-- `L2_CACHE_SIZE` -/
abbrev l2CacheSize : Nat := 16

/-- The flags of an entry, as bits. -/
def qcowOflagCopied : Nat := 2 ^ 63

/-- `QCOW_OFLAG_COMPRESSED` -/
def qcowOflagCompressed : Nat := 2 ^ 62

/-- The part of `BDRVQcowState` for the tables, with the image file. -/
structure L2State where
  hd : Nat → Byte
  l1Size : Nat
  l1Table : Nat → Nat
  l1TableOffset : Nat
  offsets : Fin l2CacheSize → Nat
  counts : Fin l2CacheSize → Nat
  tables : Fin l2CacheSize → Nat → Byte

/-- `qcow2_l2_cache_reset` -/
def l2CacheReset (s : L2State) : L2State :=
  { s with offsets := fun _ => 0, counts := fun _ => 0, tables := fun _ _ => 0 }

/-- `l2_cache_new_entry` -/
def l2CacheNewEntry (s : L2State) : Fin l2CacheSize :=
  ((List.finRange l2CacheSize).foldl
    (fun best i => if s.counts i < best.2 then (i, s.counts i) else best)
      (⟨0, by decide⟩, 0xffffffff)).1

/-- The counts after a hit. -/
def hitCounts (counts : Fin l2CacheSize → Nat) (i : Fin l2CacheSize) : Fin l2CacheSize → Nat :=
  let counts := update counts i ((counts i + 1) % 2 ^ 32)
  if counts i = 0xffffffff then fun j => counts j / 2 else counts

/-- `seek_l2_table` -/
def seekL2Table (s : L2State) (l2Offset : Nat) : Option (Fin l2CacheSize × L2State) :=
  ((List.finRange l2CacheSize).find? fun i => l2Offset = s.offsets i).map fun i =>
    (i, { s with counts := hitCounts s.counts i })

section

variable (clusterBits : Nat)

/-- An L2 table fills a cluster. -/
def l2Load (s : L2State) (l2Offset : Nat) (read : HostFault) : Option (Fin l2CacheSize) × L2State :=
  match seekL2Table s l2Offset with
  | some (i, s) => (some i, s)
  | none =>
    let i := l2CacheNewEntry s
    let table := hostRead s.hd l2Offset (2 ^ clusterBits) (s.tables i) read
    let s := { s with tables := update s.tables i table }
    match read with
    | some _ => (none, s)
    | none =>
      (some i,
        { s with
          offsets := update s.offsets i l2Offset
          counts := update s.counts i 1 })

/-- A sector of the L1 table. -/
def l1Sector (s : L2State) (l1Index : Nat) : List Byte :=
  (List.range 64).flatMap fun i => putBe64 (BitVec.ofNat 64 (s.l1Table (l1Index / 64 * 64 + i)))

/-- Where the sector of an L1 entry is in the file. -/
def l1SectorOffset (s : L2State) (l1Index : Nat) : Nat := s.l1TableOffset + 8 * (l1Index / 64 * 64)

/-- What the environment does while a table is looked up or made. -/
structure TableEnv where
  /-- What `qcow2_free_clusters` and `qcow2_alloc_clusters` write. -/
  writes : List (Nat × List Byte)
  /-- What `qcow2_alloc_clusters` returns, if it does not fail. -/
  allocated : Option Nat
  read : HostFault
  writeTable : HostFault
  writeL1 : HostFault

/-- The end of `l2_allocate`: the table is written, and then its L1 entry. -/
def hookTable (s : L2State) (l1Index : Nat) (i : Fin l2CacheSize) (l2Offset : Nat)
    (env : TableEnv) : Option (Fin l2CacheSize) × L2State :=
  let s := { s with
    hd := hostWrite s.hd l2Offset (bytesAt (s.tables i) 0 (2 ^ clusterBits)) env.writeTable }
  if env.writeTable.isSome then (none, l2CacheReset s)
  else
    let s := { s with
      l1Table := update s.l1Table l1Index (l2Offset ||| qcowOflagCopied) }
    let s := { s with
      hd := hostWrite s.hd (l1SectorOffset s l1Index) (l1Sector s l1Index) env.writeL1 }
    if env.writeL1.isSome then (none, l2CacheReset s)
    else
      (some i,
        { s with
          offsets := update s.offsets i l2Offset
          counts := update s.counts i 1 })

/-- `l2_allocate` -/
def l2Allocate (s : L2State) (l1Index : Nat) (env : TableEnv) :
    Option (Fin l2CacheSize) × L2State :=
  let oldL2Offset := s.l1Table l1Index
  let s := { s with hd := hostWrites s.hd env.writes }
  match env.allocated with
  | none => (none, s)
  | some l2Offset =>
    let i := l2CacheNewEntry s
    if oldL2Offset = 0 then
      let s := { s with tables := update s.tables i fun _ => 0 }
      hookTable clusterBits s l1Index i l2Offset env
    else
      let table := hostRead s.hd oldL2Offset (2 ^ clusterBits) (s.tables i) env.read
      let s := { s with tables := update s.tables i table }
      if env.read.isSome then (none, l2CacheReset s)
      else hookTable clusterBits s l1Index i l2Offset env

/-- The L1 index of an offset. -/
def l1IndexOf (offset : Nat) : Nat := offset / 2 ^ (clusterBits - 3 + clusterBits)

/-- The L2 index of an offset. -/
def l2IndexOf (offset : Nat) : Nat := offset / 2 ^ clusterBits % 2 ^ (clusterBits - 3)

/-- The slot, the offset and the index that `get_cluster_table` gives. -/
structure TablePlace where
  slot : Fin l2CacheSize
  l2Offset : Nat
  l2Index : Nat

/-- `get_cluster_table`.  Where `qcow2_grow_l1_table` succeeds, the L1 table has grown before. -/
def getClusterTable (s : L2State) (offset : Nat) (env : TableEnv) :
    Option TablePlace × L2State :=
  let l1Index := l1IndexOf clusterBits offset
  if s.l1Size ≤ l1Index then (none, s)
  else
    let l2Offset := s.l1Table l1Index
    if 2 ^ 63 ≤ l2Offset then
      let r := l2Load clusterBits s (l2Offset % 2 ^ 63) env.read
      (r.1.map fun slot => ⟨slot, l2Offset % 2 ^ 63, l2IndexOf clusterBits offset⟩, r.2)
    else
      let r := l2Allocate clusterBits s l1Index env
      (r.1.map fun slot => ⟨slot, r.2.l1Table l1Index % 2 ^ 63, l2IndexOf clusterBits offset⟩, r.2)

/-- The part of `qcow2_get_cluster_offset` that loads the table. -/
def getClusterOffset (s : L2State) (offset : Nat) (read : HostFault) : L2State :=
  let l1Index := l1IndexOf clusterBits offset
  if s.l1Size ≤ l1Index ∨ s.l1Table l1Index = 0 then s
  else (l2Load clusterBits s (s.l1Table l1Index % 2 ^ 63) read).2

/-- `QCowL2Meta`.  The clusters are entries of one table. -/
structure QCowL2Meta where
  offset : Nat
  clusterOffset : Nat
  nbClusters : Nat
  fits : l2IndexOf clusterBits offset + nbClusters ≤ 2 ^ (clusterBits - 3)

/-- Entries of a table in memory are set. -/
def setEntries (s : L2State) (slot : Fin l2CacheSize) (l2Index : Nat) (entries : List Nat) :
    L2State :=
  { s with
    tables := update s.tables slot
      (storeAt (s.tables slot) (8 * l2Index)
        (entries.flatMap fun e => putBe64 (BitVec.ofNat 64 e))) }

/-- `write_l2_entries`: whole sectors are written. -/
def writeL2Entries (s : L2State) (slot : Fin l2CacheSize) (l2Offset l2Index num : Nat)
    (write : HostFault) : L2State :=
  let start := 8 * l2Index / 512 * 512
  let stop := (8 * (l2Index + num) + 511) / 512 * 512
  { s with
    hd := hostWrite s.hd (l2Offset + start)
      (bytesAt (s.tables slot) (8 * (l2Index / 64 * 64)) (stop - start)) write }

/-- `qcow2_alloc_cluster_link_l2` behind the copying.  The old clusters are freed later. -/
def allocClusterLinkL2 (s : L2State) (m : QCowL2Meta clusterBits) (env : TableEnv)
    (write : HostFault) : L2State :=
  if m.nbClusters = 0 then s
  else
    match getClusterTable clusterBits s m.offset env with
    | (none, s) => s
    | (some t, s) =>
      let s := setEntries s t.slot t.l2Index ((List.range m.nbClusters).map fun i =>
        (m.clusterOffset + i * 2 ^ clusterBits) ||| qcowOflagCopied)
      let s := writeL2Entries s t.slot t.l2Offset t.l2Index m.nbClusters write
      if write.isSome then l2CacheReset s else s

/-- What the environment does while a compressed cluster is allocated. -/
structure CompressedEnv where
  table : TableEnv
  /-- What `qcow2_free_any_clusters` and `qcow2_alloc_bytes` write. -/
  writes : List (Nat × List Byte)
  /-- What `qcow2_alloc_bytes` returns, if it does not fail. -/
  allocated : Option Nat
  write : HostFault

/-- The entry of a compressed cluster. -/
def compressedEntry (offset compressedSize : Nat) : Nat :=
  let nbCsectors := (offset + compressedSize - 1) / 2 ^ 9 - offset / 2 ^ 9
  offset ||| (qcowOflagCompressed ||| nbCsectors <<< (62 - (clusterBits - 8)))

/-- `qcow2_alloc_compressed_cluster_offset` -/
def allocCompressedClusterOffset (s : L2State) (offset compressedSize : Nat)
    (env : CompressedEnv) : L2State :=
  match getClusterTable clusterBits s offset env.table with
  | (none, s) => s
  | (some t, s) =>
    if 2 ^ 63 ≤ (be64At (s.tables t.slot) (8 * t.l2Index)).toNat then s
    else
      let s := { s with hd := hostWrites s.hd env.writes }
      match env.allocated with
      | none => s
      | some clusterOffset =>
        let s := setEntries s t.slot t.l2Index [compressedEntry clusterBits clusterOffset
          compressedSize]
        { s with
          hd := hostWrite s.hd (t.l2Offset + 8 * t.l2Index)
            (bytesAt (s.tables t.slot) (8 * t.l2Index) 8) env.write }

/-! ### Runs -/

/-- A call that looks at a table, or a reset of the cache. -/
inductive L2Action
  /-- `qcow2_get_cluster_offset` -/
  | lookup (offset : Nat) (read : HostFault)
  /-- `qcow2_alloc_cluster_offset` -/
  | table (offset : Nat) (env : TableEnv)
  | link (m : QCowL2Meta clusterBits) (env : TableEnv) (write : HostFault)
  | compressed (offset compressedSize : Nat) (env : CompressedEnv)
  /-- A snapshot operation begins. -/
  | reset
  /-- Other writes, and another L1 table. -/
  | other (writes : List (Nat × List Byte)) (l1Size : Nat) (l1Table : Nat → Nat)
      (l1TableOffset : Nat)

/-- One call. -/
def L2Action.exec (s : L2State) : L2Action clusterBits → L2State
  | .lookup offset read => getClusterOffset clusterBits s offset read
  | .table offset env => (getClusterTable clusterBits s offset env).2
  | .link m env write => allocClusterLinkL2 clusterBits s m env write
  | .compressed offset size env => allocCompressedClusterOffset clusterBits s offset size env
  | .reset => l2CacheReset s
  | .other writes l1Size l1Table l1TableOffset =>
    { s with hd := hostWrites s.hd writes, l1Size, l1Table, l1TableOffset }

/-- The cached tables are those of the image, and each of them is cached once. -/
structure L2Sound (s : L2State) : Prop where
  held : ∀ i, s.offsets i ≠ 0 →
    ∀ j < 2 ^ clusterBits, s.tables i j = s.hd (s.offsets i + j)
  once : ∀ i k, s.offsets i ≠ 0 → s.offsets i = s.offsets k → i = k

/-- The image has been opened: nothing is cached, and the L2 tables are clusters. -/
structure L2State.Opened (s : L2State) : Prop where
  empty : ∀ i, s.offsets i = 0
  aligned : ∀ i, 2 ^ clusterBits ∣ s.l1Table i % 2 ^ 63

/-- The place is apart from the cached tables. -/
def Spares (s : L2State) (offset size : Nat) : Prop :=
  ∀ i, s.offsets i ≠ 0 → Apart (s.offsets i) (2 ^ clusterBits) offset size

/-- A read that fails spoils no table: the slot it goes to is empty, or is left as it was. -/
def LoadFine (s : L2State) (l2Offset : Nat) (read : HostFault) : Prop :=
  read = none ∨ (∃ i, s.offsets i = l2Offset) ∨ s.offsets (l2CacheNewEntry s) = 0 ∨
    ∀ j < 2 ^ clusterBits,
      hostRead s.hd l2Offset (2 ^ clusterBits) (s.tables (l2CacheNewEntry s)) read j =
        s.tables (l2CacheNewEntry s) j

/-- The cluster that is allocated is not one of a cached table, and neither the refcounts nor the L1
table are in one. -/
def AllocFine (s : L2State) (l1Index : Nat) (env : TableEnv) : Prop :=
  (∀ w ∈ env.writes, Spares clusterBits s w.1 w.2.length) ∧
    ∀ o, env.allocated = some o →
      2 ^ clusterBits ∣ o ∧ o < 2 ^ 63 ∧ (∀ i, i ≠ l2CacheNewEntry s → s.offsets i ≠ o) ∧
        Spares clusterBits s (l1SectorOffset s l1Index) 512 ∧
          Apart o (2 ^ clusterBits) (l1SectorOffset s l1Index) 512

/-- The condition of a call that needs the table of an offset. -/
def TableFine (s : L2State) (offset : Nat) (env : TableEnv) : Prop :=
  let l1Index := l1IndexOf clusterBits offset
  l1Index < s.l1Size →
    (2 ^ 63 ≤ s.l1Table l1Index →
      LoadFine clusterBits s (s.l1Table l1Index % 2 ^ 63) env.read) ∧
    (s.l1Table l1Index < 2 ^ 63 → AllocFine clusterBits s l1Index env)

/-- The table that a request uses. -/
def tableOffset (s : L2State) (offset : Nat) (env : TableEnv) : Option Nat :=
  let l2Offset := s.l1Table (l1IndexOf clusterBits offset)
  if 2 ^ 63 ≤ l2Offset then some (l2Offset % 2 ^ 63) else env.allocated

/-- **No table is spoiled.**  A read fails only where no other table is lost, a compressed cluster's
entry is written, and nothing else is written or allocated where a cached table is. -/
def L2Action.Fine (s : L2State) : L2Action clusterBits → Prop
  | .lookup offset read =>
    let l1Index := l1IndexOf clusterBits offset
    l1Index < s.l1Size → s.l1Table l1Index ≠ 0 →
      LoadFine clusterBits s (s.l1Table l1Index % 2 ^ 63) read
  | .table offset env => TableFine clusterBits s offset env
  | .link m env _ => m.nbClusters ≠ 0 → TableFine clusterBits s m.offset env
  | .compressed offset _ env =>
    TableFine clusterBits s offset env.table ∧ env.write = none ∧
      ∀ w ∈ env.writes, Spares clusterBits s w.1 w.2.length ∧
        ∀ o, tableOffset clusterBits s offset env.table = some o →
          Apart o (2 ^ clusterBits) w.1 w.2.length
  | .reset => True
  | .other writes _ l1Table _ =>
    (∀ w ∈ writes, Spares clusterBits s w.1 w.2.length) ∧
      ∀ i, 2 ^ clusterBits ∣ l1Table i % 2 ^ 63

end

theorem qcow_copied_mod (o : Nat) (ho : o < 2 ^ 63) : (o ||| qcowOflagCopied) % 2 ^ 63 = o := by
  rw [Nat.or_mod_two_pow, Nat.mod_eq_of_lt ho]
  exact Nat.or_zero o

/-! ### What is kept -/

section

variable {clusterBits : Nat} {s : L2State}

/-- Besides, the tables are clusters. -/
structure L2Inv (clusterBits : Nat) (s : L2State) : Prop extends L2Sound clusterBits s where
  clusters : ∀ i, 2 ^ clusterBits ∣ s.offsets i
  l1 : ∀ i, 2 ^ clusterBits ∣ s.l1Table i % 2 ^ 63

theorem inv_opened (h : s.Opened clusterBits) : L2Inv clusterBits s where
  held i hi := absurd (h.empty i) hi
  once i _ hi := absurd (h.empty i) hi
  clusters i := by
    rw [h.empty i]
    exact dvd_zero _
  l1 := h.aligned

theorem inv_reset (h : ∀ i, 2 ^ clusterBits ∣ s.l1Table i % 2 ^ 63) :
    L2Inv clusterBits (l2CacheReset s) :=
  inv_opened ⟨fun _ => rfl, h⟩

theorem L2Inv.write (h : L2Inv clusterBits s) {hd : Nat → Byte}
    (hhd : ∀ i, s.offsets i ≠ 0 → ∀ j < 2 ^ clusterBits,
      hd (s.offsets i + j) = s.hd (s.offsets i + j)) :
    L2Inv clusterBits { s with hd } where
  held i hi j hj := (h.held i hi j hj).trans (hhd i hi j hj).symm
  once := h.once
  clusters := h.clusters
  l1 := h.l1

theorem L2Inv.writes (h : L2Inv clusterBits s) {writes : List (Nat × List Byte)}
    (hw : ∀ w ∈ writes, Spares clusterBits s w.1 w.2.length) :
    L2Inv clusterBits { s with hd := hostWrites s.hd writes } :=
  h.write fun i hi _ hj => hostWrites_apart (fun w hmem => hw w hmem i hi) hj

/-- A slot is filled with a table of the image that is in no other slot.  The image may change
where no other cached table is. -/
theorem L2Inv.fill (h : L2Inv clusterBits s) {i : Fin l2CacheSize} {o : Nat} {table : Nat → Byte}
    {hd : Nat → Byte} {l1Table : Nat → Nat} (ho : 2 ^ clusterBits ∣ o)
    (hnew : ∀ k, k ≠ i → s.offsets k ≠ o)
    (hhd : ∀ k, k ≠ i → s.offsets k ≠ 0 → ∀ j < 2 ^ clusterBits,
      hd (s.offsets k + j) = s.hd (s.offsets k + j))
    (htable : ∀ j < 2 ^ clusterBits, table j = hd (o + j))
    (hl1 : ∀ k, 2 ^ clusterBits ∣ l1Table k % 2 ^ 63) (counts : Fin l2CacheSize → Nat) :
    L2Inv clusterBits
      { s with
        hd
        l1Table
        tables := update s.tables i table
        offsets := update s.offsets i o
        counts } where
  held k hk j hj := by
    dsimp only at hk ⊢
    by_cases hki : k = i
    · rw [hki, update_self, update_self]
      exact htable j hj
    · rw [update_of_ne hki] at hk
      rw [update_of_ne hki, update_of_ne hki, hhd k hki hk j hj]
      exact h.held k hk j hj
  -- no other entry has the offset of the new one
  once k k' hk heq := by
    dsimp only at hk heq
    by_cases hki : k = i
    · by_cases hki' : k' = i
      · rw [hki, hki']
      · rw [hki, update_self, update_of_ne hki'] at heq
        exact absurd heq.symm (hnew k' hki')
    · rw [update_of_ne hki] at hk heq
      by_cases hki' : k' = i
      · rw [hki', update_self] at heq
        exact absurd heq (hnew k hki)
      · rw [update_of_ne hki'] at heq
        exact h.once k k' hk heq
  clusters k := by
    dsimp only
    by_cases hki : k = i
    · rw [hki, update_self]
      exact ho
    · rw [update_of_ne hki]
      exact h.clusters k
  l1 := hl1

/-- A slot that is empty, or keeps its bytes, does not matter. -/
theorem L2Inv.spoil (h : L2Inv clusterBits s) {i : Fin l2CacheSize} {table : Nat → Byte}
    (hi : s.offsets i = 0 ∨ ∀ j < 2 ^ clusterBits, table j = s.tables i j) :
    L2Inv clusterBits { s with tables := update s.tables i table } where
  held k hk j hj := by
    dsimp only at hk ⊢
    by_cases hki : k = i
    · subst hki
      rw [update_self]
      rcases hi with hzero | hsame
      · exact absurd hzero hk
      · exact (hsame j hj).trans (h.held k hk j hj)
    · rw [update_of_ne hki]
      exact h.held k hk j hj
  once := h.once
  clusters := h.clusters
  l1 := h.l1

/-! ### Tables are looked up -/

theorem seek_some {o : Nat} {i : Fin l2CacheSize} {s' : L2State}
    (h : seekL2Table s o = some (i, s')) :
    s.offsets i = o ∧ s' = { s with counts := hitCounts s.counts i } := by
  obtain ⟨k, hfind, heq⟩ := Option.map_eq_some_iff.mp h
  obtain ⟨rfl, rfl⟩ := Prod.mk.inj heq
  have hk := List.find?_some hfind
  exact ⟨(of_decide_eq_true hk).symm, rfl⟩

theorem seek_none {o : Nat} (h : seekL2Table s o = none) (i : Fin l2CacheSize) :
    s.offsets i ≠ o := by
  have hfind := List.find?_eq_none.mp (Option.map_eq_none_iff.mp h) i (List.mem_finRange i)
  intro heq
  exact hfind (decide_eq_true heq.symm)

/-- The table is in the slot, nothing else is cached that was not, and no table is spoiled. -/
structure TableGiven (clusterBits : Nat) (s : L2State) (o : Nat)
    (r : Option (Fin l2CacheSize) × L2State) : Prop where
  inv : L2Inv clusterBits r.2
  slot : ∀ i, r.1 = some i → r.2.offsets i = o ∧ 2 ^ clusterBits ∣ o
  others : ∀ i, r.1 = some i → ∀ k, r.2.offsets k = s.offsets k ∨ r.2.offsets k = o

theorem update_cases {α : Type} (f : Fin l2CacheSize → α) (i k : Fin l2CacheSize) (a : α) :
    update f i a k = f k ∨ update f i a k = a := by
  by_cases hki : k = i
  · exact Or.inr (by rw [hki, update_self])
  · exact Or.inl (update_of_ne hki a f)

/-- `l2_load` gives the table, from the cache or from the file. -/
theorem l2Load_given (h : L2Inv clusterBits s) {o : Nat} (ho : 2 ^ clusterBits ∣ o)
    {read : HostFault} (hf : LoadFine clusterBits s o read) :
    TableGiven clusterBits s o (l2Load clusterBits s o read) := by
  unfold LoadFine at hf
  unfold l2Load
  generalize l2CacheNewEntry s = new at hf ⊢
  cases hseek : seekL2Table s o with
  | some r =>
    obtain ⟨i, s'⟩ := r
    obtain ⟨hi, rfl⟩ := seek_some hseek
    refine ⟨⟨⟨h.held, h.once⟩, h.clusters, h.l1⟩, ?_, fun _ _ k => Or.inl rfl⟩
    intro k hk
    obtain rfl := Option.some.inj hk
    exact ⟨hi, ho⟩
  | none =>
    have hnew := seek_none hseek
    cases read with
    | none =>
      refine ⟨h.fill ho (fun k _ => hnew k) (fun _ _ _ _ _ => rfl) ?_ h.l1 _, ?_,
        fun _ _ k => update_cases _ _ _ _⟩
      · intro j hj
        have hcopy := storeAt_copy (s.tables new) s.hd 0 o hj
        rwa [Nat.zero_add] at hcopy
      · intro i hi
        obtain rfl := Option.some.inj hi
        exact ⟨update_self .., ho⟩
    | some left =>
      -- the read has failed behind some bytes, and the slot keeps its offset
      refine ⟨h.spoil ?_, fun i hi => (by cases hi), fun i hi => (by cases hi)⟩
      rcases hf with hf | ⟨i, hi⟩ | hzero | hsame
      · cases hf
      · exact absurd hi (hnew i)
      · exact Or.inl hzero
      · exact Or.inr hsame

/-! ### Tables are made -/

theorem TableGiven.failed {o : Nat} {s' : L2State} (h : L2Inv clusterBits s') :
    TableGiven clusterBits s o (none, s') :=
  ⟨h, fun i hi => (by cases hi), fun i hi => (by cases hi)⟩

theorem L2Inv.setL1 (h : L2Inv clusterBits s) {o : Nat} (ho : 2 ^ clusterBits ∣ o)
    (hlt : o < 2 ^ 63) (l1Index i : Nat) : 2 ^ clusterBits ∣
      update s.l1Table l1Index (o ||| qcowOflagCopied) i % 2 ^ 63 := by
  by_cases hi : i = l1Index
  · rw [hi, update_self, qcow_copied_mod o hlt]
    exact ho
  · rw [update_of_ne hi]
    exact h.l1 i

theorem length_l1Sector (l1Index : Nat) : (l1Sector s l1Index).length = 512 := by
  unfold l1Sector
  rw [length_flatMap_of_length (k := 8) (fun _ => length_putBe64 _), List.length_range]

/-- The new table is hooked up, whatever is in it. -/
theorem hookTable_given (h : L2Inv clusterBits s) {l1Index l2Offset : Nat} {new : Fin l2CacheSize}
    (hcluster : 2 ^ clusterBits ∣ l2Offset) (hlt : l2Offset < 2 ^ 63)
    (hnew : ∀ k, k ≠ new → s.offsets k ≠ l2Offset)
    (hsector : Spares clusterBits s (l1SectorOffset s l1Index) 512)
    (hapart : Apart l2Offset (2 ^ clusterBits) (l1SectorOffset s l1Index) 512)
    (table : Nat → Byte) (env : TableEnv) {r : Option (Fin l2CacheSize) × L2State}
    (hr : hookTable clusterBits { s with tables := update s.tables new table } l1Index new
      l2Offset env = r) :
    TableGiven clusterBits s l2Offset r ∧
      ∀ i, r.1 = some i → r.2.l1Table l1Index % 2 ^ 63 = l2Offset := by
  have hl1 := h.setL1 hcluster hlt l1Index
  unfold hookTable at hr
  dsimp only at hr
  rw [update_self] at hr
  by_cases hwrite : env.writeTable.isSome
  · rw [if_pos hwrite] at hr
    subst hr
    exact ⟨.failed (inv_reset h.l1), fun i hi => (by cases hi)⟩
  rw [if_neg hwrite] at hr
  by_cases hwriteL1 : env.writeL1.isSome
  · rw [if_pos hwriteL1] at hr
    subst hr
    exact ⟨.failed (inv_reset hl1), fun i hi => (by cases hi)⟩
  rw [if_neg hwriteL1] at hr
  subst hr
  -- nothing has failed
  have hwrite' : env.writeTable = none := by simpa using hwrite
  rw [hwrite']
  have hlen : ∀ s' : L2State, (l1Sector s' l1Index).length = 512 := fun _ => length_l1Sector l1Index
  refine ⟨⟨h.fill hcluster hnew ?_ ?_ hl1 _, ?_, fun _ _ k => update_cases _ _ _ _⟩, ?_⟩
  · intro k hk hk0 j hj
    have hsec : Apart (s.offsets k) (2 ^ clusterBits) (l1SectorOffset s l1Index) 512 :=
      hsector k hk0
    have hne := apart_of_ne (h.clusters k) hcluster (hnew k hk)
    rw [hostWrite_apart (by rwa [hlen]) hj]
    exact hostWrite_apart (by rwa [length_bytesAt]) hj none
  · intro j hj
    rw [hostWrite_apart (by rwa [hlen]) hj]
    have hcopy := storeAt_copy s.hd table l2Offset 0 hj
    rw [Nat.zero_add] at hcopy
    exact hcopy.symm
  · intro i hi
    obtain rfl := Option.some.inj hi
    exact ⟨update_self .., hcluster⟩
  · intro i hi
    dsimp only
    rw [update_self]
    exact qcow_copied_mod l2Offset hlt

/-- `l2_allocate` gives a table that is new, and leads there. -/
theorem l2Allocate_given (h : L2Inv clusterBits s) {l1Index : Nat} {env : TableEnv}
    (hf : AllocFine clusterBits s l1Index env) {o : Nat}
    (ho : ∀ o', env.allocated = some o' → o' = o)
    {r : Option (Fin l2CacheSize) × L2State} (hr : l2Allocate clusterBits s l1Index env = r) :
    TableGiven clusterBits s o r ∧ ∀ i, r.1 = some i → r.2.l1Table l1Index % 2 ^ 63 = o := by
  obtain ⟨hwrites, halloc⟩ := hf
  have h₁ := h.writes hwrites
  have hentry : l2CacheNewEntry { s with hd := hostWrites s.hd env.writes } =
    l2CacheNewEntry s := rfl
  unfold l2Allocate at hr
  dsimp only at hr
  rw [hentry] at hr
  generalize l2CacheNewEntry s = new at halloc hr
  -- without a cluster nothing but the host's own writes has happened
  cases hallocated : env.allocated with
  | none =>
    rw [hallocated] at hr
    subst hr
    exact ⟨.failed h₁, fun i hi => (by cases hi)⟩
  | some l2Offset =>
    obtain rfl := ho l2Offset hallocated
    obtain ⟨hcluster, hlt, hnew, hsector, hapart⟩ := halloc l2Offset hallocated
    rw [hallocated] at hr
    dsimp only at hr
    by_cases hold : s.l1Table l1Index = 0
    · rw [if_pos hold] at hr
      obtain ⟨hgiven, hl1⟩ := hookTable_given h₁ hcluster hlt hnew hsector hapart _ env hr
      exact ⟨⟨hgiven.inv, hgiven.slot, hgiven.others⟩, hl1⟩
    rw [if_neg hold] at hr
    by_cases hread : env.read.isSome
    · rw [if_pos hread] at hr
      subst hr
      exact ⟨.failed (inv_reset h.l1), fun i hi => (by cases hi)⟩
    · rw [if_neg hread] at hr
      obtain ⟨hgiven, hl1⟩ := hookTable_given h₁ hcluster hlt hnew hsector hapart _ env hr
      exact ⟨⟨hgiven.inv, hgiven.slot, hgiven.others⟩, hl1⟩

/-! ### Entries -/

/-- The place is one of a cached table, and only the table of the request may be cached besides. -/
structure PlaceGiven (clusterBits : Nat) (s : L2State) (offset : Nat) (env : TableEnv)
    (t : TablePlace) (s' : L2State) : Prop where
  slot : s'.offsets t.slot = t.l2Offset
  cluster : 2 ^ clusterBits ∣ t.l2Offset
  index : t.l2Index = l2IndexOf clusterBits offset
  others : ∀ k, s'.offsets k = s.offsets k ∨
    tableOffset clusterBits s offset env = some (s'.offsets k)

/-- `get_cluster_table` gives the table of the offset. -/
theorem getClusterTable_given (h : L2Inv clusterBits s) {offset : Nat} {env : TableEnv}
    (hf : TableFine clusterBits s offset env) {r : Option TablePlace × L2State}
    (hr : getClusterTable clusterBits s offset env = r) :
    L2Inv clusterBits r.2 ∧ ∀ t, r.1 = some t → PlaceGiven clusterBits s offset env t r.2 := by
  unfold getClusterTable at hr
  dsimp only at hr
  by_cases hsize : s.l1Size ≤ l1IndexOf clusterBits offset
  · rw [if_pos hsize] at hr
    subst hr
    exact ⟨h, fun t ht => (by cases ht)⟩
  rw [if_neg hsize] at hr
  obtain ⟨hload, halloc⟩ := hf (Nat.lt_of_not_le hsize)
  -- the entry of the L1 table has its copied flag, or a new table is made
  by_cases hcopied : 2 ^ 63 ≤ s.l1Table (l1IndexOf clusterBits offset)
  · rw [if_pos hcopied] at hr
    subst hr
    have hgiven := l2Load_given h (h.l1 _) (hload hcopied)
    refine ⟨hgiven.inv, fun t ht => ?_⟩
    obtain ⟨i, hi, rfl⟩ := Option.map_eq_some_iff.mp ht
    obtain ⟨hslot, hcluster⟩ := hgiven.slot i hi
    refine ⟨hslot, hcluster, rfl, fun k => (hgiven.others i hi k).imp_right fun hk => ?_⟩
    rw [tableOffset, if_pos hcopied, hk]
  · rw [if_neg hcopied] at hr
    subst hr
    have hgiven := fun o ho =>
      l2Allocate_given h (halloc (Nat.lt_of_not_le hcopied)) (o := o) ho rfl
    cases hallocated : env.allocated with
    | none =>
      obtain ⟨hnone, -⟩ := hgiven 0 (fun o' ho' => by rw [hallocated] at ho'; cases ho')
      refine ⟨hnone.inv, fun t ht => ?_⟩
      obtain ⟨i, hi, -⟩ := Option.map_eq_some_iff.mp ht
      unfold l2Allocate at hi
      rw [hallocated] at hi
      cases hi
    | some o =>
      obtain ⟨hsome, hl1⟩ := hgiven o (fun o' ho' => Option.some.inj (ho'.symm.trans hallocated))
      refine ⟨hsome.inv, fun t ht => ?_⟩
      obtain ⟨i, hi, rfl⟩ := Option.map_eq_some_iff.mp ht
      obtain ⟨hslot, hcluster⟩ := hsome.slot i hi
      refine ⟨hslot.trans (hl1 i hi).symm, (hl1 i hi).symm ▸ hcluster, rfl, fun k => ?_⟩
      refine (hsome.others i hi k).imp_right fun hk => ?_
      rw [tableOffset, if_neg hcopied, hallocated, hk]

/-- Bytes of a table are changed in its slot, and as many or more of them are written. -/
theorem L2Inv.change (h : L2Inv clusterBits s) {slot : Fin l2CacheSize} {o : Nat}
    (hslot : s.offsets slot = o) (place : Nat) (bytes : List Byte) (start len : Nat)
    (hstart : start ≤ place) (hstop : place + bytes.length ≤ start + len)
    (hlen : start + len ≤ 2 ^ clusterBits) :
    L2Inv clusterBits
      { s with
        tables := update s.tables slot (storeAt (s.tables slot) place bytes)
        hd := storeAt s.hd (o + start)
          (bytesAt (storeAt (s.tables slot) place bytes) start len) } where
  held k hk j hj := by
    dsimp only at hk ⊢
    by_cases hks : k = slot
    · subst hks
      rw [update_self, hslot]
      by_cases hin : start ≤ j ∧ j < start + len
      · obtain ⟨i, rfl⟩ := Nat.exists_eq_add_of_le hin.1
        rw [← Nat.add_assoc, storeAt_copy _ _ _ _ (by omega)]
      · have hout : storeAt (s.tables k) place bytes j = s.tables k j := by
          rcases not_and_or.mp hin with hlt | hge
          · exact storeAt_of_lt (by omega)
          · exact storeAt_of_le (by omega)
        have hhd : ∀ l : List Byte, l.length = len → storeAt s.hd (o + start) l (o + j) =
            s.hd (o + j) := by
          intro l hl
          rcases not_and_or.mp hin with hlt | hge
          · exact storeAt_of_lt (by omega)
          · exact storeAt_of_le (by omega)
        rw [hout, hhd _ (length_bytesAt ..), ← hslot]
        exact h.held k hk j hj
    -- another slot is of another cluster
    · have hne : s.offsets k ≠ o := by
        intro heq
        exact hks (h.once k slot hk (heq.trans hslot.symm))
      have hapart := apart_of_ne (h.clusters k) (hslot ▸ h.clusters slot) hne
      have hpart : Apart (s.offsets k) (2 ^ clusterBits) (o + start)
          (bytesAt (storeAt (s.tables slot) place bytes) start len).length := by
        rw [length_bytesAt]
        exact hapart.inside (by omega) (by omega)
      rw [update_of_ne hks]
      exact (h.held k hk j hj).trans (hostWrite_apart hpart hj none).symm
  once := h.once
  clusters := h.clusters
  l1 := h.l1

theorem length_entries (entries : List Nat) :
    (entries.flatMap fun e => putBe64 (BitVec.ofNat 64 e)).length = 8 * entries.length :=
  length_flatMap_of_length (fun _ => length_putBe64 _) entries

theorem l2Index_lt (offset : Nat) : l2IndexOf clusterBits offset < 2 ^ (clusterBits - 3) :=
  Nat.mod_lt _ (Nat.two_pow_pos _)

theorem table_bytes (h : 9 ≤ clusterBits) : 8 * 2 ^ (clusterBits - 3) = 2 ^ clusterBits := by
  rw [show (8 : Nat) = 2 ^ 3 from rfl, ← pow_add]
  congr 1
  omega

theorem sector_dvd (h : 9 ≤ clusterBits) : 512 ∣ 2 ^ clusterBits :=
  pow_dvd_pow 2 h

/-! ### Requests -/

/-- `qcow2_alloc_cluster_link_l2` keeps the invariant. -/
theorem link_inv (hbits : 9 ≤ clusterBits) (h : L2Inv clusterBits s) (m : QCowL2Meta clusterBits)
    {env : TableEnv} (hf : m.nbClusters ≠ 0 → TableFine clusterBits s m.offset env)
    (write : HostFault) : L2Inv clusterBits (allocClusterLinkL2 clusterBits s m env write) := by
  unfold allocClusterLinkL2
  by_cases hnb : m.nbClusters = 0
  · rw [if_pos hnb]
    exact h
  rw [if_neg hnb]
  generalize hr : getClusterTable clusterBits s m.offset env = r
  obtain ⟨hinv, hplace⟩ := getClusterTable_given h (hf hnb) hr
  obtain ⟨place, s'⟩ := r
  cases place with
  | none => exact hinv
  | some t =>
    have hgiven := hplace t rfl
    dsimp only
    cases write with
    | some left => exact inv_reset hinv.l1
    | none =>
      -- the sectors that are written are those of the entries
      have hfits := m.fits
      rw [← hgiven.index] at hfits
      have hbytes := table_bytes hbits
      obtain ⟨q, hq⟩ := sector_dvd hbits
      have hlen := length_entries ((List.range m.nbClusters).map fun i =>
        (m.clusterOffset + i * 2 ^ clusterBits) ||| qcowOflagCopied)
      rw [List.length_map, List.length_range] at hlen
      have hstart : 8 * (t.l2Index / 64 * 64) = 8 * t.l2Index / 512 * 512 := by omega
      have hchange := hinv.change hgiven.slot (8 * t.l2Index)
        (((List.range m.nbClusters).map fun i =>
          (m.clusterOffset + i * 2 ^ clusterBits) ||| qcowOflagCopied).flatMap fun e =>
            putBe64 (BitVec.ofNat 64 e))
        (8 * t.l2Index / 512 * 512)
        ((8 * (t.l2Index + m.nbClusters) + 511) / 512 * 512 - 8 * t.l2Index / 512 * 512)
        (by omega) (by omega) (by omega)
      unfold writeL2Entries setEntries
      dsimp only
      rw [update_self, hstart]
      exact hchange

/-- So does the allocation of a compressed cluster. -/
theorem compressed_inv (hbits : 9 ≤ clusterBits) (h : L2Inv clusterBits s) {offset : Nat}
    {env : CompressedEnv} (compressedSize : Nat)
    (hf : TableFine clusterBits s offset env.table) (hwrite : env.write = none)
    (hwrites : ∀ w ∈ env.writes, Spares clusterBits s w.1 w.2.length ∧
      ∀ o, tableOffset clusterBits s offset env.table = some o →
        Apart o (2 ^ clusterBits) w.1 w.2.length) :
    L2Inv clusterBits (allocCompressedClusterOffset clusterBits s offset compressedSize env) := by
  unfold allocCompressedClusterOffset
  generalize hr : getClusterTable clusterBits s offset env.table = r
  obtain ⟨hinv, hplace⟩ := getClusterTable_given h hf hr
  obtain ⟨place, s'⟩ := r
  cases place with
  | none => exact hinv
  | some t =>
    have hgiven := hplace t rfl
    dsimp only
    by_cases hcopied : 2 ^ 63 ≤ (be64At (s'.tables t.slot) (8 * t.l2Index)).toNat
    · rw [if_pos hcopied]
      exact hinv
    rw [if_neg hcopied]
    -- a write of the host may not meet a cached table, and the slot in use is one of them
    have hspares : ∀ w ∈ env.writes, Spares clusterBits s' w.1 w.2.length := by
      intro w hw i hi
      obtain ⟨hcached, hused⟩ := hwrites w hw
      rcases hgiven.others i with heq | heq
      · rw [heq] at hi ⊢
        exact hcached i hi
      · exact hused _ heq
    have hmid := hinv.writes hspares
    cases env.allocated with
    | none => exact hmid
    | some clusterOffset =>
      have hindex : t.l2Index < 2 ^ (clusterBits - 3) := hgiven.index ▸ l2Index_lt offset
      have hbytes := table_bytes hbits
      have hlen := length_entries [compressedEntry clusterBits clusterOffset compressedSize]
      rw [List.length_singleton] at hlen
      -- table and file change together
      have hchange := hmid.change hgiven.slot (8 * t.l2Index)
        ([compressedEntry clusterBits clusterOffset compressedSize].flatMap fun e =>
          putBe64 (BitVec.ofNat 64 e))
        (8 * t.l2Index) 8 le_rfl (by omega) (by omega)
      unfold setEntries
      dsimp only
      rw [hwrite, update_self]
      exact hchange

/-- So does every call that is fine. -/
theorem L2Action.inv (hbits : 9 ≤ clusterBits) (h : L2Inv clusterBits s)
    (a : L2Action clusterBits) (ha : a.Fine clusterBits s) :
    L2Inv clusterBits (a.exec clusterBits s) := by
  cases a with
  | lookup offset read =>
    show L2Inv clusterBits (getClusterOffset clusterBits s offset read)
    unfold getClusterOffset
    dsimp only
    split_ifs with hskip
    · exact h
    · obtain ⟨hsize, hne⟩ := not_or.mp hskip
      exact (l2Load_given h (h.l1 _) (ha (Nat.lt_of_not_le hsize) hne)).inv
  | table offset env => exact (getClusterTable_given h ha rfl).1
  | link m env write => exact link_inv hbits h m ha write
  | compressed offset size env => exact compressed_inv hbits h size ha.1 ha.2.1 ha.2.2
  | reset => exact inv_reset h.l1
  | other writes l1Size l1Table l1TableOffset =>
    have hwritten := h.writes ha.1
    exact ⟨⟨hwritten.held, hwritten.once⟩, hwritten.clusters, ha.2⟩

end

/-- **The L2 cache.**  In every run from the opening of the image, in which no action spoils a
table, the tables in memory are those of the image, and no table is there twice. -/
theorem l2_cache_sound (clusterBits : Nat) (hbits : 9 ≤ clusterBits) (s s' : L2State)
    (hs : s.Opened clusterBits) (as : List (L2Action clusterBits))
    (hfine : StepsMeet (fun s a => some (L2Action.exec clusterBits s a))
      (L2Action.Fine clusterBits) s as)
    (hrun : runFrom (fun s a => some (L2Action.exec clusterBits s a)) s as = some s') :
    L2Sound clusterBits s' := by
  refine (runFrom_preserves (I := L2Inv clusterBits) ?_ (inv_opened hs) hfine hrun).toL2Sound
  intro s a s₁ hinv ha hexec
  obtain rfl := Option.some.inj hexec
  exact a.inv hbits hinv ha

/-- An image with one L2 table, at its second cluster of 512 bytes. -/
def oneTable : L2State where
  hd := fun _ => 0
  l1Size := 1
  l1Table := fun i => if i = 0 then 512 ||| qcowOflagCopied else 0
  l1TableOffset := 1024
  offsets := fun _ => 0
  counts := fun _ => 0
  tables := fun _ _ => 0

theorem oneTable_opened : oneTable.Opened 9 := by
  refine ⟨fun _ => rfl, fun i => ?_⟩
  by_cases hi : i = 0
  · subst hi
    decide
  · show 2 ^ 9 ∣ (if i = 0 then _ else 0) % 2 ^ 63
    rw [if_neg hi]
    decide

/-- Nothing is allocated and nothing fails. -/
def quietEnv : TableEnv := ⟨[], none, none, none, none⟩

/-- The table is looked up, and an entry of it is set. -/
theorem l2_cache_sound_link :
    L2Sound 9 (L2Action.exec 9 (L2Action.exec 9 oneTable (.lookup 0 none))
      (.link ⟨0, 2048, 1, by decide⟩ quietEnv none)) := by
  refine l2_cache_sound 9 le_rfl oneTable _ oneTable_opened
    [.lookup 0 none, .link ⟨0, 2048, 1, by decide⟩ quietEnv none]
    ⟨fun _ _ => Or.inl rfl, fun s' hs' => ⟨fun _ _ => ⟨fun _ => Or.inl rfl, fun hlt => ?_⟩,
      fun _ _ => trivial⟩⟩ rfl
  obtain rfl := Option.some.inj hs'
  exact absurd hlt (by decide)

/-- The entry of a compressed cluster could not be written, and stays in the cache. -/
theorem l2_cache_compressed : ¬∀ (clusterBits : Nat) (s s' : L2State), 9 ≤ clusterBits →
    s.Opened clusterBits → ∀ as : List (L2Action clusterBits),
      runFrom (fun s a => some (L2Action.exec clusterBits s a)) s as = some s' →
        L2Sound clusterBits s' := by
  intro h
  have hsound := h 9 oneTable _ le_rfl oneTable_opened
    [.compressed 0 1 ⟨quietEnv, [], some 2048, some []⟩] rfl
  exact absurd (hsound.held 0 (by decide +kernel) 0 (by decide)) (by decide +kernel)

end Qemu.Block
