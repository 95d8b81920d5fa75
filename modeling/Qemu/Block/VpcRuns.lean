import Qemu.Block.VpcSpec

namespace Qemu.Block

open Lib

/-!
# Runs of writes to a VPC image

* `vpcWrite_written` — a call of `vpc_write`;
* `VpcKeeps` — entries of the page table are never changed again;
* `VpcRun` — an image, what it is expected to hold, and whether an error was not told;
* `vpc_writes` — the runs in which blocks are apart and sectors hold what was written, those in
  which the footers agree, and those in which errors are told.
-/

/-! ### Calls -/

/-- Something holds of every sector that a call comes to. -/
def VpcCallMeets (P : Vpc → Nat → VpcHost → Prop) (s : Vpc) (sectorNum : Nat) :
    List (VpcSector × VpcHost) → Prop
  | [] => True
  | (x, host) :: rest => P s sectorNum host ∧ ((vpcWriteSector s sectorNum x host).2 = true →
      VpcCallMeets P (vpcWriteSector s sectorNum x host).1 (sectorNum + 1) rest)

section

variable {p : VpcParams} {s s' : Vpc} {v a : Nat} {data : List (VpcSector × VpcHost)}

theorem vpcWrite_cons (s : Vpc) (a : Nat) (x : VpcSector) (host : VpcHost)
    (rest : List (VpcSector × VpcHost)) : vpcWrite s a ((x, host) :: rest) =
      if (vpcWriteSector s a x host).2 = true then
        vpcWrite (vpcWriteSector s a x host).1 (a + 1) rest
      else ((vpcWriteSector s a x host).1, false) := by
  rw [vpcWrite]
  rcases vpcWriteSector s a x host with ⟨s₁, _ | _⟩ <;> rfl

/-- What a call does to an image. -/
structure VpcCallWritten (p : VpcParams) (s : Vpc) (a : Nat) (data : List (VpcSector × VpcHost))
    (r : Vpc × Bool) : Prop where
  inv : r.1.Inv p
  other : ∀ v, v < a ∨ a + data.length ≤ v → r.1.sector v = s.sector v
  self : r.2 = true → ∀ k (hk : k < data.length), r.1.sector (a + k) = data[k].1

/-- **A call.** -/
theorem vpcWrite_written (h : s.Inv p) (hin : a + data.length ≤ p.totalSectors)
    (hfits : VpcCallMeets VpcFits s a data) : VpcCallWritten p s a data (vpcWrite s a data) := by
  induction data generalizing s a with
  | nil => exact ⟨h, fun _ _ => rfl, fun _ k hk => absurd hk (Nat.not_lt_zero k)⟩
  | cons d rest ih =>
    obtain ⟨x, host⟩ := d
    obtain ⟨hhead, hrest⟩ := hfits
    rw [List.length_cons] at hin
    obtain ⟨hinv, hother, hself⟩ := h.write_sector (by omega) x hhead
    rw [vpcWrite_cons]
    split_ifs with hok
    · obtain ⟨hinv', hother', hself'⟩ := ih hinv (by omega) (hrest hok)
      refine ⟨hinv', fun v hv => ?_, fun hok' k hk => ?_⟩
      · rw [List.length_cons] at hv
        rw [hother' v (by omega), hother v (by omega)]
      · cases k with
        | zero => exact (hother' a (.inl (Nat.lt_succ_self a))).trans (hself hok)
        | succ k =>
          have hsum : a + (k + 1) = a + 1 + k := by omega
          rw [hsum]
          exact hself' hok' k (Nat.lt_of_succ_lt_succ hk)
    · refine ⟨hinv, fun v hv => hother v ?_, fun hfalse => (by cases hfalse)⟩
      rw [List.length_cons] at hv
      omega

/-! ### Entries that stay -/

/-- Blocks that have a place keep it. -/
structure VpcKeeps (s s' : Vpc) : Prop where
  entries : s'.maxTableEntries = s.maxTableEntries
  pagetable : ∀ i, s.pagetable i ≠ VPC_UNALLOCATED → s'.pagetable i = s.pagetable i

theorem VpcKeeps.refl (s : Vpc) : VpcKeeps s s := ⟨rfl, fun _ _ => rfl⟩

theorem VpcKeeps.trans {s₁ s₂ s₃ : Vpc} (h : VpcKeeps s₁ s₂) (h' : VpcKeeps s₂ s₃) :
    VpcKeeps s₁ s₃ := by
  refine ⟨h'.entries.trans h.entries, fun i hi => ?_⟩
  have hkept := h.pagetable i hi
  rw [h'.pagetable i (hkept ▸ hi), hkept]

theorem VpcKeeps.separate (h : VpcKeeps s s') (hsep : s'.Separate) : s.Separate := by
  intro i hi j hj hne halloc halloc'
  have hkept := hsep i (h.entries ▸ hi) j (h.entries ▸ hj) hne
  rw [h.pagetable i halloc, h.pagetable j halloc'] at hkept
  exact hkept halloc halloc'

theorem getSectorOffset_keeps (s : Vpc) (v : Nat) (write : Bool) (host : VpcHost) :
    VpcKeeps s (getSectorOffset s v write host).1 := by
  unfold getSectorOffset
  dsimp only
  split_ifs <;> exact ⟨rfl, fun _ _ => rfl⟩

/-- An allocation keeps the other blocks. -/
theorem allocBlock_keeps (s : Vpc) (v : Nat) (host : VpcHost) :
    VpcKeeps s (allocBlock s v host).1 := by
  by_cases hv : v ≤ s.totalSectors
  swap
  · rw [allocBlock, if_pos (Nat.lt_of_not_le hv)]
    exact .refl s
  by_cases hfree : s.pagetable (v / vpcBlockSectors) = VPC_UNALLOCATED
  swap
  · rw [allocBlock, if_neg (Nat.not_lt.mpr hv), if_pos hfree]
    exact .refl s
  have hupdate : ∀ i, s.pagetable i ≠ VPC_UNALLOCATED →
      Function.update s.pagetable (v / vpcBlockSectors) (BitVec.ofNat 32 s.freeDataBlock) i =
        s.pagetable i := by
    intro i hi
    refine Function.update_of_ne ?_ ..
    rintro rfl
    exact hi hfree
  rw [allocBlock_eq hv hfree]
  split_ifs
  · exact ⟨rfl, hupdate⟩
  · exact ⟨rfl, hupdate⟩
  · rw [getSectorOffset_fst]
    exact ⟨rfl, hupdate⟩

/-- A sector is in a block that is there, or in one that is allocated, or the allocation fails. -/
theorem vpcWriteSector_cases (s : Vpc) (v : Nat) (x : VpcSector) (host : VpcHost) :
    (∃ s₁ o, getSectorOffset s v true host = (s₁, some o) ∧
      vpcWriteSector s v x host = (s₁.pwrite o x host.data, host.data.isNone)) ∨
    (∃ s₁ o, allocBlock s v host = (s₁, some o) ∧
      vpcWriteSector s v x host = (s₁.pwrite o x host.data, host.data.isNone)) ∨
    ∃ s₁, allocBlock s v host = (s₁, none) ∧ vpcWriteSector s v x host = (s₁, false) := by
  by_cases hnone : s.maxTableEntries ≤ v / vpcBlockSectors ∨
      s.pagetable (v / vpcBlockSectors) = VPC_UNALLOCATED
  · have hget : getSectorOffset s v true host = (s, none) := if_pos hnone
    cases halloc : allocBlock s v host with
    | mk s₁ o =>
    cases o with
    | none => exact .inr (.inr ⟨s₁, rfl, by simp only [vpcWriteSector, hget, halloc]⟩)
    | some o => exact .inr (.inl ⟨s₁, o, rfl, by simp only [vpcWriteSector, hget, halloc]⟩)
  · have hget : getSectorOffset s v true host = _ := if_neg hnone
    exact .inl ⟨_, _, hget, by rw [vpcWriteSector, hget]⟩

theorem vpcWriteSector_keeps (s : Vpc) (v : Nat) (x : VpcSector) (host : VpcHost) :
    VpcKeeps s (vpcWriteSector s v x host).1 := by
  have hget := getSectorOffset_keeps s v true host
  have halloc := allocBlock_keeps s v host
  obtain ⟨s₁, o, heq, hwrite⟩ | ⟨s₁, o, heq, hwrite⟩ | ⟨s₁, heq, hwrite⟩ :=
    vpcWriteSector_cases s v x host
  · rw [heq] at hget
    rw [hwrite]
    exact ⟨hget.entries, hget.pagetable⟩
  · rw [heq] at halloc
    rw [hwrite]
    exact ⟨halloc.entries, halloc.pagetable⟩
  · rw [heq] at halloc
    rw [hwrite]
    exact halloc

theorem vpcWrite_keeps (s : Vpc) (a : Nat) (data : List (VpcSector × VpcHost)) :
    VpcKeeps s (vpcWrite s a data).1 := by
  induction data generalizing s a with
  | nil => exact .refl s
  | cons d rest ih =>
    obtain ⟨x, host⟩ := d
    rw [vpcWrite_cons]
    split_ifs
    · exact (vpcWriteSector_keeps s a x host).trans (ih _ _)
    · exact vpcWriteSector_keeps s a x host

/-- Two blocks are in one place if one is allocated after a failed allocation. -/
theorem Vpc.Inv.not_separate (h : s.Inv p) (hv : v < p.totalSectors) (x : VpcSector)
    {host : VpcHost} (hfits : ¬VpcFits s v host) : ¬(vpcWriteSector s v x host).1.Separate := by
  have hb : v / vpcBlockSectors < s.maxTableEntries := by
    rw [h.entries]
    unfold VpcParams.batEntries vpcBlockSectors
    omega
  simp only [VpcFits, Vpc.NoneFailed, Classical.not_imp, not_forall, not_not] at hfits
  -- another block has the place that this one is about to take
  obtain ⟨hfree, i, hi, hentry⟩ := hfits
  have hne : i ≠ v / vpcBlockSectors := by
    rintro rfl
    exact h.free_ne hb hfree (hentry.symm.trans hfree)
  have htotal : v ≤ s.totalSectors := h.total ▸ hv.le
  have ha := allocBlock_allocated h htotal hb hfree host
  have hself := ha.pagetable_self
  have hother := (ha.pagetable_of_ne hne).trans hentry
  have hentries := ha.entries
  have halloc := h.free_ne hb hfree
  have hget : getSectorOffset s v true host = (s, none) := if_pos (.inr hfree)
  -- so the two overlap as soon as it is allocated, whether the data is written or not
  have hkept : ¬(allocBlock s v host).1.Separate := by
    intro hsep
    have hapart := hsep i (hentries ▸ hi) _ (hentries ▸ hb) hne
    rw [hself, hother] at hapart
    have hapart := hapart halloc halloc
    have hpos : 0 < vpcBlockSectors + vpcBitmapSectors := by decide
    omega
  unfold vpcWriteSector
  rw [hget]
  dsimp only
  cases hblock : allocBlock s v host with
  | mk s₁ o =>
  rw [hblock] at hkept
  cases o with
  | none => exact hkept
  | some o => exact hkept

/-- An allocation behind a failed one puts two blocks at one place. -/
theorem vpcWrite_not_separate (h : s.Inv p) (hin : a + data.length ≤ p.totalSectors)
    (hfits : ¬VpcCallMeets VpcFits s a data) : ¬(vpcWrite s a data).1.Separate := by
  induction data generalizing s a with
  | nil => exact absurd trivial hfits
  | cons d rest ih =>
    obtain ⟨x, host⟩ := d
    rw [List.length_cons] at hin
    rw [vpcWrite_cons]
    by_cases hhead : VpcFits s a host
    · obtain ⟨hinv, -, -⟩ := h.write_sector (by omega) x hhead
      have hrest : ¬((vpcWriteSector s a x host).2 = true →
          VpcCallMeets VpcFits (vpcWriteSector s a x host).1 (a + 1) rest) :=
        fun hrest => hfits ⟨hhead, hrest⟩
      obtain ⟨hok, hrest⟩ := Classical.not_imp.mp hrest
      rw [if_pos hok]
      exact ih hinv (by omega) hrest
    · have hsep := h.not_separate (by omega) x hhead
      split_ifs
      · exact fun hsep' => hsep ((vpcWrite_keeps _ _ _).separate hsep')
      · exact hsep

/-! ### Errors -/

theorem VpcFile.pwrite_failures (f : VpcFile) (offset : Nat) (x : VpcSector)
    (left : Option VpcSector) :
    (f.pwrite offset x left).failures = f.failures + if left.isSome then 1 else 0 := by
  unfold VpcFile.pwrite
  split_ifs <;> rfl

theorem getSectorOffset_failures (s : Vpc) (v : Nat) (write : Bool) (host : VpcHost) :
    s.file.failures ≤ (getSectorOffset s v write host).1.file.failures := by
  unfold getSectorOffset
  dsimp only
  split_ifs
  · exact le_rfl
  · exact (Nat.le_add_right _ _).trans_eq (VpcFile.pwrite_failures ..).symm
  · exact le_rfl

theorem takeBlock_failures (s : Vpc) (b : Nat) (host : VpcHost) :
    (s.takeBlock b host).file.failures = s.file.failures + (if host.bitmap.isSome then 1 else 0) +
      if host.footer.isSome then 1 else 0 :=
  (VpcFile.pwrite_failures ..).trans (congrArg (· + _) (VpcFile.pwrite_failures ..))

/-- The writes of an allocation that count. -/
theorem allocBlock_failures (hv : v ≤ s.totalSectors)
    (hfree : s.pagetable (v / vpcBlockSectors) = VPC_UNALLOCATED) (host : VpcHost) :
    (allocBlock s v host).1.file.failures =
      s.file.failures + (if host.bitmap.isSome then 1 else 0) +
        if host.footer.isSome ∨ host.table.isSome then 1 else 0 := by
  have htake := takeBlock_failures s (v / vpcBlockSectors) host
  have hentry : ((s.takeBlock (v / vpcBlockSectors) host).writeEntry (v / vpcBlockSectors)
      host).file.failures = _ := VpcFile.pwrite_failures ..
  rw [allocBlock_eq hv hfree]
  split_ifs at htake hentry ⊢ <;> simp_all [getSectorOffset_fst, Vpc.freeBlock]

theorem allocBlock_failures_le (s : Vpc) (v : Nat) (host : VpcHost) :
    s.file.failures ≤ (allocBlock s v host).1.file.failures := by
  by_cases hv : v ≤ s.totalSectors
  swap
  · rw [allocBlock, if_pos (Nat.lt_of_not_le hv)]
  by_cases hfree : s.pagetable (v / vpcBlockSectors) = VPC_UNALLOCATED
  · rw [allocBlock_failures hv hfree]
    omega
  · rw [allocBlock, if_neg (Nat.not_lt.mpr hv), if_pos hfree]

/-- `alloc_block` finds no sector unless all its writes but the first one succeed. -/
theorem allocBlock_some {s₁ : Vpc} {o : Nat} {host : VpcHost}
    (h : allocBlock s v host = (s₁, some o)) : v ≤ s.totalSectors ∧
      s.pagetable (v / vpcBlockSectors) = VPC_UNALLOCATED ∧ host.footer.isSome = false ∧
      host.table.isSome = false := by
  by_cases hv : v ≤ s.totalSectors
  swap
  · rw [allocBlock, if_pos (Nat.lt_of_not_le hv)] at h
    cases h
  by_cases hfree : s.pagetable (v / vpcBlockSectors) = VPC_UNALLOCATED
  · rw [allocBlock_eq hv hfree] at h
    split_ifs at h with hfooter htable
    · cases h
    · cases h
    · exact ⟨hv, hfree, Bool.eq_false_of_not_eq_true hfooter, Bool.eq_false_of_not_eq_true htable⟩
  · rw [allocBlock, if_neg (Nat.not_lt.mpr hv), if_pos hfree] at h
    cases h

theorem Vpc.pwrite_failures (s : Vpc) (offset : Nat) (x : VpcSector) (left : Option VpcSector) :
    (s.pwrite offset x left).file.failures =
      s.file.failures + if left.isSome then 1 else 0 :=
  VpcFile.pwrite_failures ..

/-- The write of a sector takes no failure back. -/
theorem vpcWriteSector_failures_le (s : Vpc) (v : Nat) (x : VpcSector) (host : VpcHost) :
    s.file.failures ≤ (vpcWriteSector s v x host).1.file.failures := by
  have hget := getSectorOffset_failures s v true host
  have halloc := allocBlock_failures_le s v host
  obtain ⟨s₁, o, heq, hwrite⟩ | ⟨s₁, o, heq, hwrite⟩ | ⟨s₁, heq, hwrite⟩ :=
    vpcWriteSector_cases s v x host
  · rw [heq] at hget
    rw [hwrite, Vpc.pwrite_failures]
    exact Nat.le_add_right_of_le hget
  · rw [heq] at halloc
    rw [hwrite, Vpc.pwrite_failures]
    exact Nat.le_add_right_of_le halloc
  · rw [heq] at halloc
    rw [hwrite]
    exact halloc

theorem vpcWrite_failures_le (s : Vpc) (a : Nat) (data : List (VpcSector × VpcHost)) :
    s.file.failures ≤ (vpcWrite s a data).1.file.failures := by
  induction data generalizing s a with
  | nil => exact le_rfl
  | cons d rest ih =>
    obtain ⟨x, host⟩ := d
    rw [vpcWrite_cons]
    split_ifs
    · exact (vpcWriteSector_failures_le s a x host).trans (ih _ _)
    · exact vpcWriteSector_failures_le s a x host

theorem vpcWrite_failures_cons (s : Vpc) (a : Nat) (x : VpcSector) (host : VpcHost)
    (rest : List (VpcSector × VpcHost)) : (vpcWriteSector s a x host).1.file.failures ≤
      (vpcWrite s a ((x, host) :: rest)).1.file.failures := by
  rw [vpcWrite_cons]
  split_ifs
  · exact vpcWrite_failures_le ..
  · exact le_rfl

/-- As long as no write has failed, allocations do not succeed. -/
def VpcUnfinished (s : Vpc) (sectorNum : Nat) (host : VpcHost) : Prop :=
  s.file.failures = 0 → s.pagetable (sectorNum / vpcBlockSectors) = VPC_UNALLOCATED →
    host.bitmap.isSome ∨ host.footer.isSome ∨ host.table.isSome

/-- A write of an allocation that fails is counted. -/
theorem vpcWriteSector_fails (hv : v ≤ s.totalSectors)
    (hfree : s.pagetable (v / vpcBlockSectors) = VPC_UNALLOCATED) (x : VpcSector)
    {host : VpcHost} (hfails : host.bitmap.isSome ∨ host.footer.isSome ∨ host.table.isSome) :
    s.file.failures < (vpcWriteSector s v x host).1.file.failures := by
  have halloc : s.file.failures < (allocBlock s v host).1.file.failures := by
    rw [allocBlock_failures hv hfree]
    rcases hfails with hfails | hfails
    · rw [if_pos hfails]
      omega
    · rw [if_pos hfails]
      omega
  have hget : getSectorOffset s v true host = (s, none) := if_pos (.inr hfree)
  obtain ⟨s₁, o, heq, -⟩ | ⟨s₁, o, heq, hwrite⟩ | ⟨s₁, heq, hwrite⟩ :=
    vpcWriteSector_cases s v x host
  · rw [hget] at heq
    cases heq
  · rw [heq] at halloc
    rw [hwrite, Vpc.pwrite_failures]
    exact Nat.lt_add_right _ halloc
  · rw [heq] at halloc
    rw [hwrite]
    exact halloc

/-- No write of a bitmap fails. -/
def VpcBitmapWritten (s : Vpc) (sectorNum : Nat) (host : VpcHost) : Prop :=
  s.pagetable (sectorNum / vpcBlockSectors) = VPC_UNALLOCATED ∨
    s.lastBitmap ≠ some (s.pagetable (sectorNum / vpcBlockSectors)).toNat →
      host.bitmap.isSome = false

/-- The failures of the other writes are told. -/
theorem vpcWriteSector_told {x : VpcSector} {host : VpcHost} (hbitmap : VpcBitmapWritten s v host)
    (hok : (vpcWriteSector s v x host).2 = true) :
    (vpcWriteSector s v x host).1.file.failures = s.file.failures := by
  obtain ⟨s₁, o, heq, hwrite⟩ | ⟨s₁, o, heq, hwrite⟩ | ⟨s₁, heq, hwrite⟩ :=
    vpcWriteSector_cases s v x host
  · rw [hwrite] at hok ⊢
    rw [Vpc.pwrite_failures, Option.isNone_iff_eq_none.mp hok]
    obtain rfl : (getSectorOffset s v true host).1 = s₁ := by rw [heq]
    show (getSectorOffset s v true host).1.file.failures = _
    unfold getSectorOffset
    dsimp only
    split_ifs with hnone hlast
    · rfl
    · rw [Vpc.pwrite_failures, hbitmap (.inr hlast.2)]
      rfl
    · rfl
  · obtain ⟨hv, hfree, hfooter, htable⟩ := allocBlock_some heq
    rw [hwrite] at hok ⊢
    rw [Vpc.pwrite_failures, Option.isNone_iff_eq_none.mp hok]
    obtain rfl : (allocBlock s v host).1 = s₁ := by rw [heq]
    show (allocBlock s v host).1.file.failures = _
    rw [allocBlock_failures hv hfree, hbitmap (.inl hfree), hfooter, htable]
    simp
  · rw [hwrite] at hok
    cases hok

theorem vpcWrite_told (hbitmap : VpcCallMeets VpcBitmapWritten s a data)
    (hok : (vpcWrite s a data).2 = true) :
    (vpcWrite s a data).1.file.failures = s.file.failures := by
  induction data generalizing s a with
  | nil => rfl
  | cons d rest ih =>
    obtain ⟨x, host⟩ := d
    rw [vpcWrite_cons] at hok ⊢
    split_ifs at hok ⊢ with hhead
    exact (ih (hbitmap.2 hhead) hok).trans (vpcWriteSector_told hbitmap.1 hhead)

end

/-! ### Runs -/

/-- An image, what its sectors are expected to hold, if a failed call did not leave them open, and
    whether a call was a success in which a write to the file failed. -/
structure VpcRun where
  image : Vpc
  expected : Nat → Option VpcSector
  silent : Bool

/-- A new image. -/
def VpcRun.new (p : VpcParams) : VpcRun where
  image := vpcNew p
  expected := fun _ => some vpcZero
  silent := false

/-- A call, which is refused if it is not in the image. -/
def VpcRun.write (r : VpcRun) (call : Nat × List (VpcSector × VpcHost)) : Option VpcRun :=
  if call.1 + call.2.length ≤ r.image.totalSectors then
    let w := vpcWrite r.image call.1 call.2
    some {
      image := w.1
      expected := storeAt r.expected call.1
        (call.2.map fun d => if w.2 then some d.1 else none)
      silent := r.silent || (w.2 && decide (r.image.file.failures < w.1.file.failures)) }
  else some r

/-- Something holds of every sector that a call in the image comes to. -/
def VpcRun.Meets (P : Vpc → Nat → VpcHost → Prop) (r : VpcRun)
    (call : Nat × List (VpcSector × VpcHost)) : Prop :=
  call.1 + call.2.length ≤ r.image.totalSectors → VpcCallMeets P r.image call.1 call.2

/-- Blocks are apart, and reads return what is expected. -/
structure VpcRun.Kept (r : VpcRun) : Prop where
  separate : r.image.Separate
  reads : ∀ v n k x, v + n ≤ r.image.totalSectors → k < n → r.expected (v + k) = some x →
    (vpcRead r.image v n)[k]? = some x

/-- As long as no write has failed, the footer at the end of the file is the one at its start, which
    is accepted. -/
def VpcRun.Footers (r : VpcRun) : Prop :=
  r.image.file.failures = 0 →
    r.image.file.content (r.image.file.size - 1) = r.image.file.content 0 ∧
      vpcAccepts (r.image.file.content 0)

/-- The invariant of runs without an allocation after a failed one. -/
structure VpcRun.Held (p : VpcParams) (r : VpcRun) : Prop where
  inv : r.image.Inv p
  sector : ∀ v x, r.expected v = some x → r.image.sector v = x

section

variable {p : VpcParams} {r r' : VpcRun} {call : Nat × List (VpcSector × VpcHost)}

theorem VpcRun.Held.kept (h : r.Held p) : r.Kept := by
  refine ⟨h.inv.separate, fun v n k x _ hk hx => ?_⟩
  rw [vpcRead_eq, getElem?_bytesAt _ _ hk, h.sector _ x hx]

/-- A new image meets the invariant. -/
theorem vpcNew_inv (p : VpcParams) : (vpcNew p).Inv p := by
  have hfree : ∀ i, (vpcNew p).pagetable i = VPC_UNALLOCATED := fun _ => rfl
  refine ⟨rfl, rfl, rfl, fun i _ _ _ _ halloc => absurd (hfree i) halloc,
    fun i _ halloc => absurd (hfree i) halloc, ?_, fun _ k hk => ?_⟩
  · rw [Finset.filter_false_of_mem fun i _ h => h.1 (hfree i), Finset.card_empty, Nat.mul_zero,
      Nat.add_zero]
    rfl
  · change p.firstFree < k at hk
    show (if k = 0 ∨ k = p.firstFree then _ else _) = vpcZero
    rw [if_neg (by omega), if_neg (by omega)]

theorem VpcRun.new_held (p : VpcParams) : (VpcRun.new p).Held p := by
  refine ⟨vpcNew_inv p, fun v x hx => ?_⟩
  obtain rfl := Option.some.inj hx
  exact content_none (Vpc.place_none rfl)

theorem VpcRun.write_in (hin : call.1 + call.2.length ≤ r.image.totalSectors) :
    r.write call = some {
      image := (vpcWrite r.image call.1 call.2).1
      expected := storeAt r.expected call.1
        (call.2.map fun d => if (vpcWrite r.image call.1 call.2).2 then some d.1 else none)
      silent := r.silent || ((vpcWrite r.image call.1 call.2).2 &&
        decide (r.image.file.failures < (vpcWrite r.image call.1 call.2).1.file.failures)) } :=
  if_pos hin

theorem VpcRun.write_out (hin : ¬call.1 + call.2.length ≤ r.image.totalSectors) :
    r.write call = some r :=
  if_neg hin

theorem VpcRun.write_some (r : VpcRun) (call : Nat × List (VpcSector × VpcHost)) :
    ∃ r', r.write call = some r' := by
  unfold VpcRun.write
  split_ifs
  · exact ⟨_, rfl⟩
  · exact ⟨_, rfl⟩

/-- A call without an allocation after a failed one. -/
theorem VpcRun.Held.write (h : r.Held p) (hfits : r.Meets VpcFits call)
    (hwrite : r.write call = some r') : r'.Held p := by
  by_cases hin : call.1 + call.2.length ≤ r.image.totalSectors
  swap
  · obtain rfl := Option.some.inj ((VpcRun.write_out hin).symm.trans hwrite)
    exact h
  obtain rfl := Option.some.inj ((VpcRun.write_in hin).symm.trans hwrite)
  obtain ⟨hinv, hother, hself⟩ := vpcWrite_written h.inv (h.inv.total ▸ hin) (hfits hin)
  refine ⟨hinv, fun v x hx => ?_⟩
  by_cases hcovered : call.1 ≤ v ∧ v < call.1 + call.2.length
  · obtain ⟨k, rfl⟩ := Nat.exists_eq_add_of_le hcovered.1
    have hk : k < call.2.length := by omega
    change storeAt _ _ _ _ = _ at hx
    rw [storeAt_add _ _ (by rw [List.length_map]; exact hk), List.getElem_map] at hx
    split_ifs at hx with hok
    rw [← Option.some.inj hx]
    exact hself hok k hk
  · have hout : v < call.1 ∨ call.1 + call.2.length ≤ v := by omega
    refine (hother v hout).trans (h.sector v x ?_)
    rw [← hx]
    rcases hout with hlt | hge
    · exact (storeAt_of_lt hlt).symm
    · exact (storeAt_of_le (by rw [List.length_map]; exact hge)).symm

theorem VpcRun.Held.not_kept (h : r.Held p) (hfits : ¬r.Meets VpcFits call)
    (hwrite : r.write call = some r') : ¬r'.Kept := by
  obtain ⟨hin, hfits⟩ := Classical.not_imp.mp hfits
  obtain rfl := Option.some.inj ((VpcRun.write_in hin).symm.trans hwrite)
  exact fun hkept => vpcWrite_not_separate h.inv (h.inv.total ▸ hin) hfits hkept.separate

/-! ### Footers -/

/-- A footer with the checksum that `vpc_open` computes is accepted. -/
theorem vpcFooter_accepts (p : VpcParams) : vpcAccepts (vpcFooter p) := by
  have hfront : (vpcFooterFront p).length = 64 := by
    simp [vpcFooterFront, vpcBe]
  have hbe : ∀ n x, (vpcBe n x).length = n := fun n x => by simp [vpcBe]
  have htake : ∀ checksum, (vpcFooterWith p checksum).take 64 = vpcFooterFront p :=
    fun checksum => List.take_left' hfront
  have hdrop : ∀ checksum, (vpcFooterWith p checksum).drop 64 =
      vpcBe 4 checksum.toNat ++ List.replicate 444 0 := fun checksum => List.drop_left' hfront
  have hrest : ∀ checksum, (vpcFooterWith p checksum).drop 68 = List.replicate 444 0 := by
    intro checksum
    rw [show 68 = 64 + 4 from rfl, ← List.drop_drop, hdrop]
    exact List.drop_left' (hbe 4 _)
  unfold vpcAccepts vpcFooter
  rw [hdrop, htake, hrest, List.take_left' (hbe 4 _)]
  rfl

theorem VpcRun.new_footers (p : VpcParams) : (VpcRun.new p).Footers := by
  intro _
  refine ⟨?_, vpcFooter_accepts p⟩
  show (if _ ∨ p.firstFree + 1 - 1 = p.firstFree then _ else _) = vpcFooter p
  exact if_pos (.inr (Nat.add_sub_cancel ..))

/-- As long as no write fails, calls without an allocation that succeeds do nothing. -/
theorem VpcRun.write_unfinished (hnew : r.image.file.failures = 0 → r.image = vpcNew p)
    (hmeets : r.Meets VpcUnfinished call) (hwrite : r.write call = some r')
    (hzero : r'.image.file.failures = 0) : r'.image = vpcNew p := by
  by_cases hin : call.1 + call.2.length ≤ r.image.totalSectors
  swap
  · obtain rfl := Option.some.inj ((VpcRun.write_out hin).symm.trans hwrite)
    exact hnew hzero
  obtain rfl := Option.some.inj ((VpcRun.write_in hin).symm.trans hwrite)
  have hmeets := hmeets hin
  change (vpcWrite r.image call.1 call.2).1.file.failures = 0 at hzero
  show (vpcWrite r.image call.1 call.2).1 = _
  have hle := vpcWrite_failures_le r.image call.1 call.2
  have hstart := hnew (by omega)
  rw [hstart] at hin hmeets hzero ⊢
  cases hdata : call.2 with
  | nil => rw [vpcWrite]
  | cons d rest =>
    obtain ⟨x, host⟩ := d
    rw [hdata] at hin hmeets hzero
    rw [List.length_cons] at hin
    have hfree : (vpcNew p).pagetable (call.1 / vpcBlockSectors) = VPC_UNALLOCATED := rfl
    have htotal : call.1 ≤ (vpcNew p).totalSectors := by omega
    have hnone : (vpcNew p).file.failures = 0 := rfl
    have hfails := vpcWriteSector_fails htotal hfree x (hmeets.1 hnone hfree)
    have hle := vpcWrite_failures_cons (vpcNew p) call.1 x host rest
    omega

/-- A call in which the writes of bitmaps succeed. -/
theorem VpcRun.write_told (htold : r.silent = false) (hmeets : r.Meets VpcBitmapWritten call)
    (hwrite : r.write call = some r') : r'.silent = false := by
  by_cases hin : call.1 + call.2.length ≤ r.image.totalSectors
  swap
  · obtain rfl := Option.some.inj ((VpcRun.write_out hin).symm.trans hwrite)
    exact htold
  obtain rfl := Option.some.inj ((VpcRun.write_in hin).symm.trans hwrite)
  show (r.silent || _) = false
  rw [htold, Bool.false_or]
  cases hok : (vpcWrite r.image call.1 call.2).2 with
  | false => rfl
  | true => rw [vpcWrite_told (hmeets hin) hok, decide_eq_false (Nat.lt_irrefl _), Bool.and_false]

end

/-! ### Results -/

/-- **Writes that may fail.**  Blocks are apart and reads return what is expected if and only if no
    block is allocated after a failed allocation.  The footers agree if no allocation succeeds
    before a write has failed, and calls tell errors if no write of a bitmap fails. -/
theorem vpc_writes (p : VpcParams) (calls : List (Nat × List (VpcSector × VpcHost))) :
    ∃ r, runFrom VpcRun.write (.new p) calls = some r ∧
      ((∀ n r₁, runFrom VpcRun.write (.new p) (calls.take n) = some r₁ → r₁.Kept) ↔
        StepsMeet VpcRun.write (VpcRun.Meets VpcFits) (.new p) calls) ∧
      (StepsMeet VpcRun.write (VpcRun.Meets VpcUnfinished) (.new p) calls →
        ∀ n r₁, runFrom VpcRun.write (.new p) (calls.take n) = some r₁ → r₁.Footers) ∧
      (StepsMeet VpcRun.write (VpcRun.Meets VpcBitmapWritten) (.new p) calls →
        ∀ n r₁, runFrom VpcRun.write (.new p) (calls.take n) = some r₁ → r₁.silent = false) := by
  have hnew := VpcRun.new_held p
  obtain ⟨r, hrun, -⟩ := runFrom_invariant (I := fun _ => True)
    (fun r call _ _ => (VpcRun.write_some r call).imp fun _ h => ⟨h, trivial⟩) trivial
    (StepsMeet.of_forall (P := fun _ _ => True) (fun _ _ => trivial) (VpcRun.new p) calls)
  refine ⟨r, hrun, runFrom_all_iff (fun _ => VpcRun.Held.kept) (fun _ _ _ => VpcRun.Held.write)
    (fun _ _ _ => VpcRun.Held.not_kept) hnew hrun, fun hmeets n r₁ hrun₁ => ?_,
    fun hmeets n r₁ hrun₁ => ?_⟩
  · rw [← List.take_append_drop n calls] at hmeets
    have himage := runFrom_preserves (I := fun r => r.image.file.failures = 0 → r.image = vpcNew p)
      (fun _ _ _ => VpcRun.write_unfinished) (fun _ => rfl) hmeets.of_append.1 hrun₁
    intro hzero
    rw [himage hzero]
    exact VpcRun.new_footers p rfl
  · rw [← List.take_append_drop n calls] at hmeets
    exact runFrom_preserves (I := fun r => r.silent = false) (fun _ _ _ => VpcRun.write_told) rfl
      hmeets.of_append.1 hrun₁

/-- The first block that is allocated leaves a footer without a checksum at the end of the file. -/
theorem vpc_writes_footer : ¬∀ n r₁,
    runFrom VpcRun.write (.new ⟨0, 1, 4, 17⟩) ([(0, [(vpcBitmap, .ok)])].take n) = some r₁ →
      r₁.Kept ∧ r₁.Footers ∧ r₁.silent = false := by
  intro h
  have hend := ((h 1 _ (Option.some_get (by decide +kernel)).symm).2.1 (by decide +kernel)).1
  revert hend
  decide +kernel

end Qemu.Block
