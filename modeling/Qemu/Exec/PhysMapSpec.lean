import Qemu.Exec.PhysMap

open Qemu.Lib Function

namespace Qemu.Exec

/-!
# Registrations of physical memory

What `cpu_register_physical_memory_offset` is for: an access goes to the last registration whose
range holds its address.

* `Registration` — a call, with what is registered; `Registration.target` — what an access in its
  range gets;
* `lastTarget` — the target by the last registration that covers the address;
* `PageOk`, `Registration.Good` — the condition under which a call does its work;
* `MapInv` — what holds of the pages and the subpages between calls; `MapInv.setPage` — one page
  changes;
* `Shared.register` — a device on part of a page.
-/

/-! ### The abstract map -/

/-- What is registered: RAM, ROM, a ROM device that is read as ROM, or a device. -/
inductive MemKind
  | ram (offset : ℕ)
  | rom (offset : ℕ)
  | romd (offset idx : ℕ)
  | io (idx : ℕ)
deriving DecidableEq

/-- A call of `cpu_register_physical_memory_offset`. -/
structure Registration where
  start : ℕ
  size : ℕ
  kind : MemKind
  regionOffset : ℕ

/-- The `phys_offset` of a call. -/
def MemKind.physOffset (ioMem : ℕ → IoEntry) : MemKind → ℕ
  | .ram offset => offset
  | .rom offset => offset + ioMemRom
  | .romd offset idx => offset + ioMemoryAddress ioMem idx + 1
  | .io idx => ioMemoryAddress ioMem idx

/-- `cpu_register_physical_memory_offset`, if it does not fault. -/
def Registration.exec (s : PhysMem) (r : Registration) : Option PhysMem :=
  cpuRegisterPhysicalMemoryOffset r.start r.size (r.kind.physOffset s.ioMem) r.regionOffset s

/-- The address is in the range. -/
def Registration.Covers (r : Registration) (a : ℕ) : Prop := r.start ≤ a ∧ a < r.start + r.size

instance Registration.decidableCovers (r : Registration) (a : ℕ) : Decidable (r.Covers a) :=
  inferInstanceAs (Decidable (_ ∧ _))

/-- What an access gets `n` bytes into what is registered, `addr` being the address for a device.
    An access that the device has no handler for is unassigned. -/
def MemKind.target (handles : ℕ → Access → Bool) (κ : Access) (a n addr : ℕ) : MemKind → Target
  | .ram offset => .ram (offset + n)
  | .rom offset => if κ.write then .io 1 addr else .ram (offset + n)
  | .romd offset idx => if κ.write then .io idx addr else .ram (offset + n)
  | .io idx => if handles idx κ then .io idx addr else .io 2 a

/-- The address a device gets: the offset from the page of the start, plus the page of
    `region_offset`.  Unassigned memory is passed the physical address. -/
def Registration.offset (r : Registration) (a : ℕ) : ℕ :=
  (a - pageMask r.start + pageMask (if r.kind = .io 2 then r.start else r.regionOffset)) % 2 ^ 32

/-- Where the registration puts an access. -/
def Registration.target (handles : ℕ → Access → Bool) (r : Registration) (a : ℕ) (κ : Access) :
    Target :=
  r.kind.target handles κ a (a - r.start) (r.offset a)

/-- The target by the last registration that covers the address. -/
def lastTarget (handles : ℕ → Access → Bool) (regs : List Registration) (a : ℕ) (κ : Access) :
    Target :=
  match regs.reverse.find? fun r => r.Covers a with
  | some r => r.target handles a κ
  | none => .io 2 a

/-! ### Conditions on a call -/

/-- What callers register: RAM and ROM in whole pages, and the I/O indices of devices.  A device
    that is read as ROM has all its handlers. -/
def MemKind.Wf (dev : ℕ → Option (Access → Bool)) : MemKind → Prop
  | .ram offset => offset % targetPageSize = 0
  | .rom offset => offset % targetPageSize = 0
  | .romd offset idx => offset % targetPageSize = 0 ∧ idx < ioMemNbEntries ∧ 5 ≤ idx ∧
    (dev idx).isSome ∧ ∀ κ, (ioMemInit dev idx).handles κ
  | .io idx => idx < ioMemNbEntries ∧ (idx = 2 ∨ 5 ≤ idx ∧ (dev idx).isSome)

/-- The region is that of a device. -/
def MemKind.isIo : MemKind → Bool
  | .io _ => true
  | _ => false

/-- What a caller passes: a region that exists; memory is registered in whole pages. -/
def Registration.Possible (dev : ℕ → Option (Access → Bool)) (r : Registration) : Prop :=
  r.kind.Wf dev ∧
    (r.kind.isIo ∨ r.start % targetPageSize = 0 ∧ r.size % targetPageSize = 0)

/-- The entry of a page; a page that has none is unassigned. -/
def PhysMem.desc (s : PhysMem) (index : ℕ) : PhysPageDesc :=
  (s.pageFind index).getD ⟨ioMemUnassigned, index * targetPageSize⟩

/-- What an access to byte `x` of a page gets. -/
def descLookup (ioMem : ℕ → IoEntry) (p : PhysPageDesc) (x : ℕ) (κ : Access) : Option Target :=
  if ramAccess κ p.physOffset then some (.ram (pageMask p.physOffset + x))
  else ioCall ioMem κ (ioIndex p.physOffset) ((x + p.regionOffset) % 2 ^ 32)

/-- The condition on a turn of the loop.  A new table of pages is made for its first page.  A page
    that becomes shared was not memory, and if it was not shared there is a free I/O index for it.
    A page that is taken over whole has the right region offset already, unless it becomes RAM.
    What the device has no handlers for was unassigned. -/
def PageOk (startAddr origSize addr physOffset regionOffset : ℕ) (s : PhysMem) : Prop :=
  let index := addr / targetPageSize
  let p := s.desc index
  let check := checkSubpage addr startAddr origSize
  ((s.l1PhysMap (index / l2Size)).isNone → index % l2Size = 0) ∧
  (if check.2.2 || isSubwidth physOffset then
    ¬memoryLike p.physOffset ∧ (isSubpage p.physOffset ∨ (getFreeIoMemIdx s.ioMem).isSome)
  else p.physOffset = ioMemUnassigned ∨ physOffset % targetPageSize = ioMemRam ∨
    p.regionOffset % 2 ^ 32 = regionOffset % 2 ^ 32) ∧
  (isSubwidth physOffset → ∀ κ, ¬(s.ioMem (ioIndex physOffset)).handles κ →
    ∀ x < targetPageSize, check.1 ≤ x → x ≤ check.2.1 →
      s.lookup (pageMask addr + x) κ = some (.io 2 (pageMask addr + x)))

/-- The condition on the turns of the loop, each in the state it starts from. -/
def PagesOk (startAddr origSize : ℕ) : (n addr physOffset regionOffset : ℕ) → PhysMem → Prop
  | 0, _, _, _, _ => True
  | n + 1, addr, physOffset, regionOffset, s =>
    PageOk startAddr origSize addr physOffset regionOffset s ∧
    ∀ s', registerPage startAddr origSize addr physOffset regionOffset s = some s' →
      PagesOk startAddr origSize n ((addr + targetPageSize) % 2 ^ 32)
        (nextPhysOffset startAddr origSize addr physOffset s)
        (regionOffset + targetPageSize) s'

/-- The condition on a call.  The range is in the address space, takes up less than all of it, and
    lies in as many pages as its size takes up. -/
def Registration.Good (s : PhysMem) (r : Registration) : Prop :=
  r.start + r.size ≤ 2 ^ 32 ∧ pageMask (r.size + targetPageSize - 1) < 2 ^ 32 ∧
  (r.size = 0 ∨ r.start % targetPageSize + r.size ≤ pageMask (r.size + targetPageSize - 1)) ∧
  PagesOk r.start r.size (registerTurns r.size) r.start (r.kind.physOffset s.ioMem)
    (firstRegionOffset r.start (r.kind.physOffset s.ioMem) r.regionOffset) s

instance decidableWf (dev : ℕ → Option (Access → Bool)) : (kind : MemKind) →
    Decidable (kind.Wf dev)
  | .ram _ => inferInstanceAs (Decidable (_ = _))
  | .rom _ => inferInstanceAs (Decidable (_ = _))
  | .romd _ _ => inferInstanceAs (Decidable (_ ∧ _))
  | .io _ => inferInstanceAs (Decidable (_ ∧ _))

instance decidablePossible (dev : ℕ → Option (Access → Bool)) (r : Registration) :
    Decidable (r.Possible dev) := inferInstanceAs (Decidable (_ ∧ _))

instance decidablePageOk (startAddr origSize addr physOffset regionOffset : ℕ) (s : PhysMem) :
    Decidable (PageOk startAddr origSize addr physOffset regionOffset s) := by
  unfold PageOk
  infer_instance

instance decidablePagesOk (startAddr origSize : ℕ) : (n addr physOffset regionOffset : ℕ) →
    (s : PhysMem) → Decidable (PagesOk startAddr origSize n addr physOffset regionOffset s)
  | 0, _, _, _, _ => isTrue trivial
  | n + 1, addr, physOffset, regionOffset, s =>
    match h : registerPage startAddr origSize addr physOffset regionOffset s with
    | none => decidable_of_iff (PageOk startAddr origSize addr physOffset regionOffset s)
        ⟨fun hP => ⟨hP, fun s' hs' => by rw [h] at hs'; cases hs'⟩, And.left⟩
    | some s₁ =>
      have := decidablePagesOk startAddr origSize n ((addr + targetPageSize) % 2 ^ 32)
        (nextPhysOffset startAddr origSize addr physOffset s)
        (regionOffset + targetPageSize) s₁
      decidable_of_iff (PageOk startAddr origSize addr physOffset regionOffset s ∧ _)
        ⟨fun hP => ⟨hP.1, fun s' hs' => by rw [h] at hs'; cases hs'; exact hP.2⟩,
          fun hP => ⟨hP.1, hP.2 s₁ h⟩⟩

instance decidableGood (s : PhysMem) (r : Registration) : Decidable (r.Good s) :=
  inferInstanceAs (Decidable (_ ∧ _))

/-! ### Flags -/

theorem isRomd_eq (pd : ℕ) : isRomd pd = decide (pd % 2 = 1) := by
  simp [isRomd, Nat.testBit_eq_decide_div_mod_eq]

theorem isSubpage_eq (pd : ℕ) : isSubpage pd = decide (pd / 2 % 2 = 1) := by
  simp [isSubpage, Nat.testBit_eq_decide_div_mod_eq]

theorem isSubwidth_eq (pd : ℕ) : isSubwidth pd = decide (pd / 4 % 2 = 1) := by
  simp [isSubwidth, Nat.testBit_eq_decide_div_mod_eq]

theorem memoryLike_iff (pd : ℕ) : memoryLike pd = true ↔ pd % 1024 ≤ 8 ∨ pd % 2 = 1 := by
  simp [memoryLike, isRomd_eq, targetPageSize, ioMemRom]

variable {m : ℕ}

theorem flags_device (hm : m < 128) (h2 : 2 ≤ m) :
    memoryLike (m * 8) = false ∧ isSubpage (m * 8) = false ∧ isSubwidth (m * 8) = false ∧
      ioIndex (m * 8) = m := by
  refine ⟨?_, ?_, ?_, ?_⟩
  · rw [Bool.eq_false_iff, ne_eq, memoryLike_iff]
    omega
  · rw [isSubpage_eq, decide_eq_false_iff_not]
    omega
  · rw [isSubwidth_eq, decide_eq_false_iff_not]
    omega
  · simp only [ioIndex, ioMemShift, ioMemNbEntries]
    omega

variable {idx : ℕ}

theorem flags_subpage (hidx : idx < 128) (h5 : 5 ≤ idx) :
    memoryLike (idx * 8 + 2) = false ∧ isSubpage (idx * 8 + 2) = true ∧
      ioIndex (idx * 8 + 2) = idx := by
  refine ⟨?_, ?_, ?_⟩
  · rw [Bool.eq_false_iff, ne_eq, memoryLike_iff]
    omega
  · rw [isSubpage_eq, decide_eq_true_iff]
    omega
  · simp only [ioIndex, ioMemShift, ioMemNbEntries]
    omega

/-! ### Pages -/

theorem PhysMem.lookup_eq (s : PhysMem) {a : ℕ} (ha : a < 2 ^ 32) (κ : Access) :
    s.lookup a κ = descLookup s.ioMem (s.desc (a / targetPageSize)) (a % targetPageSize) κ := by
  unfold PhysMem.lookup descLookup PhysMem.desc
  cases s.pageFind (a / targetPageSize) with
  | none =>
    have haddr : (a % targetPageSize + a / targetPageSize * targetPageSize) % 2 ^ 32 = a := by
      rw [Nat.mod_add_div', Nat.mod_eq_of_lt ha]
    simp only [Option.getD_none, haddr]
  | some p => rfl

theorem PhysMem.pageFind_filter (s : PhysMem) (index : ℕ) :
    (s.pageFind index).filter (·.physOffset ≠ ioMemUnassigned) =
      if (s.desc index).physOffset = ioMemUnassigned then none else some (s.desc index) := by
  unfold PhysMem.desc
  cases s.pageFind index with
  | none => rfl
  | some p => simp [Option.filter_some, apply_ite]

variable {g index : ℕ}

/-- What a page gets changes that page only, if the table of the page is there or is made for its
    first page. -/
theorem PhysMem.desc_setPage (s : PhysMem) (p : PhysPageDesc)
    (htable : (s.l1PhysMap (index / l2Size)).isNone → index % l2Size = 0) (hg : g < 2 ^ 22) :
    (s.setPage index p).desc g = if g = index then p else s.desc g := by
  unfold PhysMem.desc PhysMem.pageFind PhysMem.setPage
  by_cases hd : g / l2Size = index / l2Size
  · simp only [hd, update_self, Option.map_some, Option.getD_some]
    by_cases hm : g % l2Size = index % l2Size
    · have hgi : g = index := by
        rw [← Nat.div_add_mod g l2Size, hd, hm, Nat.div_add_mod]
      rw [hm, update_self, if_pos hgi]
    · have hgi : g ≠ index := fun h => hm (by rw [h])
      rw [update_of_ne hm, if_neg hgi]
      cases ht : s.l1PhysMap (index / l2Size) with
      | some pd => rfl
      | none =>
        -- the new table has the addresses of its pages
        have h0 := htable (by rw [ht]; rfl)
        simp only [Option.getD_none, Option.map_none, freshTable, PhysPageDesc.mk.injEq, true_and]
        simp only [l2Size, targetPageSize] at *
        omega
  · have hgi : g ≠ index := fun h => hd (by rw [h])
    simp only [update_of_ne hd, if_neg hgi]

/-! ### The invariant -/

variable {dev : ℕ → Option (Access → Bool)}

/-- A page: memory, a device with all its handlers, or a subpage of its own.  Unassigned memory
    has its own address as region offset. -/
inductive PageWf (dev : ℕ → Option (Access → Bool)) (ioMem : ℕ → IoEntry) (g : ℕ) :
    PhysPageDesc → Prop
  | memory {pd reg : ℕ} : memoryLike pd → ¬isSubpage pd →
      (pd % targetPageSize = ioMemRam ∨ ¬(ioMemInit dev (ioIndex pd)).isFree) →
      PageWf dev ioMem g ⟨pd, reg⟩
  | device {m reg : ℕ} : m < ioMemNbEntries → 2 ≤ m → ¬(ioMemInit dev m).isFree →
      (m = 2 → reg % 2 ^ 32 = g * targetPageSize) → PageWf dev ioMem g ⟨m * 8, reg⟩
  | subpage {idx : ℕ} (mmio : Subpage) : idx < ioMemNbEntries → (ioMemInit dev idx).isFree →
      ioMem idx = .subpage mmio →
      (∀ x κ r, mmio.route x κ = some r → ¬(ioMemInit dev r.1).isFree) →
      PageWf dev ioMem g ⟨idx * 8 + 2, 0⟩

/-- What holds between calls: the devices stay, every page is in order, and no two pages share a
    subpage. -/
structure MapInv (dev : ℕ → Option (Access → Bool)) (s : PhysMem) : Prop where
  devices : ∀ m, ¬(ioMemInit dev m).isFree → s.ioMem m = ioMemInit dev m
  page : ∀ g < 2 ^ 22, PageWf dev s.ioMem g (s.desc g)
  distinct : ∀ g < 2 ^ 22, ∀ g' < 2 ^ 22, isSubpage (s.desc g).physOffset →
    (s.desc g').physOffset = (s.desc g).physOffset → g' = g

theorem ioMemInit_cases (dev : ℕ → Option (Access → Bool)) (m : ℕ) :
    ioMemInit dev m = .free ∨ ∃ handles, ioMemInit dev m = .device handles := by
  match m with
  | 0 | 1 | 2 | 3 | 4 => exact Or.inr ⟨_, rfl⟩
  | m + 5 =>
    have hm : ioMemInit dev (m + 5) = (dev (m + 5)).elim .free .device := rfl
    rw [hm]
    cases dev (m + 5) with
    | none => exact Or.inl rfl
    | some handles => exact Or.inr ⟨handles, rfl⟩

theorem five_le_of_free (h : (ioMemInit dev m).isFree) : 5 ≤ m := by
  match m with
  | 0 | 1 | 2 | 3 | 4 => cases h
  | m + 5 => exact Nat.le_add_left 5 m

variable {ioMem ioMem' : ℕ → IoEntry}

theorem deviceCall_congr (h : ioMem' m = ioMem m) (κ : Access) (addr : ℕ) :
    deviceCall ioMem' κ m addr = deviceCall ioMem κ m addr := by
  unfold deviceCall
  rw [h]

theorem ioCall_device (h : ioMem m = ioMemInit dev m) (κ : Access) (addr : ℕ) :
    ioCall ioMem κ m addr = deviceCall ioMem κ m addr := by
  unfold ioCall
  rcases ioMemInit_cases dev m with hm | ⟨handles, hm⟩ <;> rw [h, hm]

theorem ramAccess_of_ram (κ : Access) {pd : ℕ} (h : pd % targetPageSize = ioMemRam) :
    ramAccess κ pd = true := by
  have hmem : memoryLike pd = true := (memoryLike_iff pd).mpr (Or.inl (h.le.trans (Nat.zero_le 8)))
  rw [ramAccess, hmem, h]
  exact ite_self true

variable {p : PhysPageDesc}

/-- An access to a memory page goes to RAM, or it is a write to the device of the page. -/
theorem PageWf.not_free (h : PageWf dev ioMem g p) {κ : Access}
    (hram : ramAccess κ p.physOffset = false) (hsub : isSubpage p.physOffset = false) :
    ¬(ioMemInit dev (ioIndex p.physOffset)).isFree := by
  cases h with
  | memory hmem _ hidx =>
    rcases hidx with h0 | hidx
    · rw [ramAccess_of_ram κ h0] at hram
      cases hram
    · exact hidx
  | device hm h2 hfree =>
    rw [(flags_device hm h2).2.2.2]
    exact hfree
  | subpage _ hidx hfree =>
    rw [(flags_subpage hidx (five_le_of_free hfree)).2.1] at hsub
    cases hsub

/-- An access depends on the devices and on the subpage of its page only. -/
theorem descLookup_congr (h : PageWf dev ioMem g p)
    (hdev : ∀ m, ¬(ioMemInit dev m).isFree → ioMem m = ioMemInit dev m)
    (hdev' : ∀ m, ¬(ioMemInit dev m).isFree → ioMem' m = ioMemInit dev m)
    (hown : isSubpage p.physOffset → ioMem' (ioIndex p.physOffset) = ioMem (ioIndex p.physOffset))
    (x : ℕ) (κ : Access) : descLookup ioMem' p x κ = descLookup ioMem p x κ := by
  unfold descLookup
  cases hram : ramAccess κ p.physOffset with
  | true => rfl
  | false =>
    cases hsub : isSubpage p.physOffset with
    | false =>
      have hm := h.not_free hram hsub
      rw [ioCall_device (hdev' _ hm), ioCall_device (hdev _ hm),
        deviceCall_congr ((hdev' _ hm).trans (hdev _ hm).symm)]
    | true =>
      have hmem := hown hsub
      cases h with
      | memory _ hns => exact absurd hsub hns
      | device hm h2 => cases hsub.symm.trans (flags_device hm h2).2.1
      | subpage mmio hidx hfree hentry hroute =>
        rw [(flags_subpage hidx (five_le_of_free hfree)).2.2] at hmem ⊢
        simp only [ioCall, hmem, hentry]
        congr 1
        cases hr : mmio.route ((x + 0) % 2 ^ 32 % targetPageSize) κ with
        | none => rfl
        | some r =>
          have hm := hroute _ _ _ hr
          exact deviceCall_congr ((hdev' _ hm).trans (hdev _ hm).symm) κ _

/-- A page depends on its own entry of the device table only. -/
theorem PageWf.congr (h : PageWf dev ioMem g p)
    (hown : isSubpage p.physOffset → ioMem' (ioIndex p.physOffset) = ioMem (ioIndex p.physOffset)) :
    PageWf dev ioMem' g p := by
  cases h with
  | memory hmem hns hidx => exact .memory hmem hns hidx
  | device hm h2 hfree hreg => exact .device hm h2 hfree hreg
  | subpage mmio hidx hfree hentry hroute =>
    have hf := flags_subpage hidx (five_le_of_free hfree)
    refine .subpage mmio hidx hfree ?_ hroute
    rw [← hentry, ← hf.2.2]
    exact hown hf.2.1

variable {s : PhysMem}

/-- **One page changes.**  The entry of a page is replaced and its own subpage may be: all other
    pages get what they got. -/
theorem MapInv.setPage {s : PhysMem} (h : MapInv dev s) {index : ℕ}
    (htable : (s.l1PhysMap (index / l2Size)).isNone → index % l2Size = 0) (ioMem : ℕ → IoEntry)
    (p : PhysPageDesc) (hdev : ∀ m, ¬(ioMemInit dev m).isFree → ioMem m = ioMemInit dev m)
    (hothers : ∀ g < 2 ^ 22, g ≠ index → isSubpage (s.desc g).physOffset →
      ioMem (ioIndex (s.desc g).physOffset) = s.ioMem (ioIndex (s.desc g).physOffset))
    (hp : PageWf dev ioMem index p)
    (hown : isSubpage p.physOffset → ∀ g < 2 ^ 22, g ≠ index →
      (s.desc g).physOffset ≠ p.physOffset) :
    MapInv dev ((PhysMem.mk s.l1PhysMap ioMem).setPage index p) ∧
    ∀ a < 2 ^ 32, ∀ κ, ((PhysMem.mk s.l1PhysMap ioMem).setPage index p).lookup a κ =
      if a / targetPageSize = index then descLookup ioMem p (a % targetPageSize) κ
      else s.lookup a κ := by
  have hdesc : ∀ g < 2 ^ 22, ((PhysMem.mk s.l1PhysMap ioMem).setPage index p).desc g =
      if g = index then p else s.desc g :=
    fun g hg => PhysMem.desc_setPage (PhysMem.mk s.l1PhysMap ioMem) p htable hg
  -- the page itself, and the others by their old descriptors
  refine ⟨⟨hdev, fun g hg => ?_, fun g hg g' hg' hsub heq => ?_⟩, fun a ha κ => ?_⟩
  · rw [hdesc g hg]
    split_ifs with hgi
    · exact hgi ▸ hp
    · exact (h.page g hg).congr (hothers g hg hgi)
  · rw [hdesc g hg] at hsub heq
    rw [hdesc g' hg'] at heq
    split_ifs at hsub heq with hgi hgi' hgi'
    · rw [hgi, hgi']
    · exact absurd heq (hown hsub g' hg' hgi')
    · rw [heq] at hown
      exact absurd rfl (hown hsub g hg hgi)
    · exact h.distinct g hg g' hg' hsub heq
  · have hpage : a / targetPageSize < 2 ^ 22 := by
      simp only [targetPageSize]
      omega
    rw [PhysMem.lookup_eq _ ha, PhysMem.lookup_eq _ ha, hdesc _ hpage]
    split_ifs with hgi
    · rfl
    · exact descLookup_congr (h.page _ hpage) h.devices hdev (hothers _ hpage hgi) _ κ

/-! ### Shared pages -/

theorem deviceCall_mod (ioMem : ℕ → IoEntry) (κ : Access) (m addr : ℕ) :
    deviceCall ioMem κ m (addr % 2 ^ 32) = deviceCall ioMem κ m addr := by
  simp only [deviceCall, Nat.mod_mod]

/-- A page of one device calls it, with the offset of the region. -/
theorem descLookup_device (hm : m < ioMemNbEntries) (h2 : 2 ≤ m)
    (hdev : ioMem m = ioMemInit dev m) (reg x : ℕ) (κ : Access) :
    descLookup ioMem ⟨m * 8, reg⟩ x κ = deviceCall ioMem κ m (x + reg) := by
  have hf := flags_device hm h2
  have hram : ramAccess κ (m * 8) = false := by
    have hlow : m * 8 % targetPageSize ≠ ioMemRam := by
      simp only [targetPageSize, ioMemRam, ioMemNbEntries] at *
      omega
    rw [ramAccess, hf.1, beq_false_of_ne hlow, ite_self]
  simp only [descLookup, hram, hf.2.2.2, ioCall_device hdev, deviceCall_mod]
  rfl

/-- A shared page calls the device of the byte. -/
theorem descLookup_subpage {mmio : Subpage} (hidx : idx < ioMemNbEntries) (h5 : 5 ≤ idx)
    (hentry : ioMem idx = .subpage mmio) {x : ℕ} (hx : x < targetPageSize) (κ : Access) :
    descLookup ioMem ⟨idx * 8 + 2, 0⟩ x κ =
      (mmio.route x κ).bind fun r => deviceCall ioMem κ r.1 (x + r.2) := by
  have hf := flags_subpage hidx h5
  have hram : ramAccess κ (idx * 8 + 2) = false := by
    have hlow : (idx * 8 + 2) % targetPageSize ≠ ioMemRam := by
      simp only [targetPageSize, ioMemRam, ioMemNbEntries] at *
      omega
    rw [ramAccess, hf.1, beq_false_of_ne hlow, ite_self]
  have hx32 : (x + 0) % 2 ^ 32 = x := by
    simp only [targetPageSize] at hx
    omega
  simp only [descLookup, hram, hf.2.2, ioCall, hentry, hx32, Nat.mod_eq_of_lt hx]
  rfl

/-- The page has become a shared one, with what it got before. -/
structure Shared (dev : ℕ → Option (Access → Bool)) (s : PhysMem) (index pd : ℕ)
    (ioMem : ℕ → IoEntry) (idx : ℕ) (mmio : Subpage) : Prop where
  pd_eq : pd = idx * 8 + 2
  idx_lt : idx < ioMemNbEntries
  free : (ioMemInit dev idx).isFree
  entry : ioMem idx = .subpage mmio
  others : ∀ m, m ≠ idx → ioMem m = s.ioMem m
  route : ∀ x κ r, mmio.route x κ = some r → ¬(ioMemInit dev r.1).isFree
  own : ∀ g < 2 ^ 22, g ≠ index → isSubpage (s.desc g).physOffset →
    ioIndex (s.desc g).physOffset ≠ idx
  lookup : ∀ x < targetPageSize, ∀ κ,
    descLookup ioMem ⟨pd, 0⟩ x κ = descLookup s.ioMem (s.desc index) x κ

theorem getFreeIoMemIdx_spec (h : getFreeIoMemIdx ioMem = some idx) :
    idx < ioMemNbEntries ∧ (ioMem idx).isFree :=
  ⟨List.mem_range.mp (List.mem_of_find?_eq_some h), by simpa using List.find?_some h⟩

theorem MapInv.free (h : MapInv dev s) (hidx : (s.ioMem idx).isFree) :
    (ioMemInit dev idx).isFree := by
  by_contra hfree
  rw [h.devices idx hfree] at hidx
  exact hfree hidx

/-- A device page is shared by a new subpage. -/
theorem subpageInit_shared (h : MapInv dev s) {reg : ℕ} (hm : m < ioMemNbEntries) (h2 : 2 ≤ m)
    (hdevice : ¬(ioMemInit dev m).isFree) (hroom : (getFreeIoMemIdx s.ioMem).isSome)
    (hpage : (s.desc index).physOffset = m * 8)
    (hreg : reg % 2 ^ 32 = (s.desc index).regionOffset % 2 ^ 32) :
    ∃ pd ioMem idx mmio, subpageInit s.ioMem (m * 8) reg = some (pd, ioMem) ∧
      Shared dev s index pd ioMem idx mmio := by
  obtain ⟨idx, hidx⟩ := Option.isSome_iff_exists.mp hroom
  obtain ⟨hlt, hfree⟩ := getFreeIoMemIdx_spec hidx
  have hfree0 := h.free hfree
  have hne : m ≠ idx := fun heq => hdevice (heq ▸ hfree0)
  -- the new entry is not the device's
  have hupd : ∀ e, update s.ioMem idx e m = ioMemInit dev m := fun e => by
    rw [update_of_ne hne, h.devices m hdevice]
  let mmio : Subpage := ⟨fun x κ =>
    if (0 ≤ x ∧ x ≤ targetPageSize - 1) ∧ (ioMemInit dev m).handles κ then some (m, reg) else none⟩
  refine ⟨_, _, idx, mmio, ?_, rfl, hlt, hfree0, update_self _ _ _,
    fun m' hm' => update_of_ne hm' _ _, ?_, ?_, ?_⟩
  · have hdiv : m * 8 / 2 ^ ioMemShift = m := Nat.mul_div_cancel m (by decide)
    have hbound : ¬(0 ≤ targetPageSize - 1 ∧ ioMemNbEntries ≤ m) :=
      fun hb => absurd hb.2 (not_le.mpr hm)
    have hpage : ¬(targetPageSize ≤ 0 ∨ targetPageSize ≤ targetPageSize - 1) := by decide
    simp only [subpageInit, hidx, Option.bind_some, subpageRegister, if_neg hpage, hdiv, hupd,
      if_neg hbound, Option.map_some, update_idem]
    rfl
  · intro x κ r hr
    simp only [mmio] at hr
    split_ifs at hr
    obtain rfl := Option.some.inj hr
    exact hdevice
  · intro g hg _ hsub heq
    -- the entries of subpages are not free
    cases hp : s.desc g with
    | mk pd reg =>
      have hwf := h.page g hg
      rw [hp] at hwf hsub heq
      cases hwf with
      | memory _ hns => exact hns hsub
      | device hm h2 => cases hsub.symm.trans (flags_device hm h2).2.1
      | subpage _ hlt' hfree' hentry =>
        rw [(flags_subpage hlt' (five_le_of_free hfree')).2.2] at heq
        rw [heq] at hentry
        rw [hentry] at hfree
        cases hfree
  · intro x hx κ
    have hdesc : s.desc index = ⟨m * 8, (s.desc index).regionOffset⟩ := by
      rw [← hpage]
    rw [hdesc, descLookup_device hm h2 (h.devices m hdevice),
      descLookup_subpage hlt (five_le_of_free hfree0) (update_self _ _ _) hx]
    have hle : 0 ≤ x ∧ x ≤ targetPageSize - 1 := ⟨Nat.zero_le x, by omega⟩
    simp only [mmio, hle, and_self, true_and]
    have hcall : deviceCall s.ioMem κ m (x + (s.desc index).regionOffset) =
        deviceCall s.ioMem κ m (x + reg) := by
      rw [← deviceCall_mod, ← deviceCall_mod _ _ _ (x + reg), Nat.add_mod, ← hreg, ← Nat.add_mod]
    rw [hcall]
    have hsame : update s.ioMem idx (.subpage mmio) m = s.ioMem m :=
      (hupd _).trans (h.devices m hdevice).symm
    split_ifs with hh
    · exact deviceCall_congr hsame κ _
    · rw [deviceCall, h.devices m hdevice, if_neg hh]
      rfl

/-- An assigned page that is not memory is shared by its subpage, or by a new one. -/
theorem pageSubpage_shared (h : MapInv dev s) (hindex : index < 2 ^ 22)
    (hmem : ¬memoryLike (s.desc index).physOffset)
    (hroom : isSubpage (s.desc index).physOffset ∨ (getFreeIoMemIdx s.ioMem).isSome) :
    ∃ pd ioMem idx mmio, pageSubpage s.ioMem (s.desc index) = some (pd, ioMem) ∧
      Shared dev s index pd ioMem idx mmio := by
  have hwf := h.page index hindex
  generalize hp : s.desc index = p at hwf hmem hroom ⊢
  cases hwf with
  | memory hm => exact absurd hm hmem
  | @device m reg hm h2 hfree =>
    have hns := (flags_device hm h2).2.1
    have hpage : (s.desc index).physOffset = m * 8 := by rw [hp]
    have hreg : reg % 2 ^ 32 = (s.desc index).regionOffset % 2 ^ 32 := by rw [hp]
    have hfreeIdx := hroom.resolve_left (by rw [hns]; exact Bool.false_ne_true)
    unfold pageSubpage
    rw [if_neg (by rw [hns]; exact Bool.false_ne_true)]
    exact subpageInit_shared h hm h2 hfree hfreeIdx hpage hreg
  | @subpage idx mmio hidx hfree hentry hroute =>
    have hf := flags_subpage hidx (five_le_of_free hfree)
    refine ⟨idx * 8 + 2, s.ioMem, idx, mmio, if_pos hf.2.1, rfl, hidx, hfree, hentry,
      fun _ _ => rfl, hroute, ?_, fun x _ κ => by rw [hp]⟩
    intro g hg hgi hsub heq
    have hpd : (s.desc g).physOffset = (s.desc index).physOffset := by
      have hwf' := h.page g hg
      rw [hp]
      generalize s.desc g = p' at hwf' hsub heq ⊢
      cases hwf' with
      | memory _ hns => exact absurd hsub hns
      | device hm h2 => cases hsub.symm.trans (flags_device hm h2).2.1
      | subpage _ hidx' hfree' =>
        rw [(flags_subpage hidx' (five_le_of_free hfree')).2.2] at heq
        rw [heq]
    exact hgi (h.distinct index hindex g hg (by rw [hp]; exact hf.2.1) hpd)

/-- A device is registered on part of a shared page. -/
theorem Shared.register (h : MapInv dev s) {pd : ℕ} {mmio : Subpage}
    (hs : Shared dev s index pd ioMem idx mmio)
    (htable : (s.l1PhysMap (index / l2Size)).isNone → index % l2Size = 0)
    {start endAddr memory reg : ℕ} (hstart : start < targetPageSize)
    (hend : endAddr < targetPageSize) (hm : memory / 2 ^ ioMemShift = m)
    (hlt : m < ioMemNbEntries) (hdevice : ¬(ioMemInit dev m).isFree) :
    ∃ ioMem', subpageRegisterAt ioMem pd start endAddr memory reg = some ioMem' ∧
      MapInv dev ((PhysMem.mk s.l1PhysMap ioMem').setPage index ⟨pd, 0⟩) ∧
      ∀ a < 2 ^ 32, ∀ κ, ((PhysMem.mk s.l1PhysMap ioMem').setPage index ⟨pd, 0⟩).lookup a κ =
        if a / targetPageSize = index ∧
            (start ≤ a % targetPageSize ∧ a % targetPageSize ≤ endAddr) ∧
            (ioMemInit dev m).handles κ then
          some (.io m ((a % targetPageSize + reg) % 2 ^ 32))
        else s.lookup a κ := by
  have hf := flags_subpage hs.idx_lt (five_le_of_free hs.free)
  have hdev : ∀ m, ¬(ioMemInit dev m).isFree → ioMem m = ioMemInit dev m := fun m' hm' => by
    rw [hs.others m' fun heq => hm' (heq ▸ hs.free), h.devices m' hm']
  let mmio' : Subpage := ⟨fun x κ =>
    if (start ≤ x ∧ x ≤ endAddr) ∧ (ioMemInit dev m).handles κ then some (m, reg)
    else mmio.route x κ⟩
  have hdev' : ∀ m, ¬(ioMemInit dev m).isFree →
      update ioMem idx (.subpage mmio') m = ioMemInit dev m := fun m' hm' => by
    rw [update_of_ne fun heq : m' = idx => hm' (heq ▸ hs.free), hdev m' hm']
  have hpage : ¬(targetPageSize ≤ start ∨ targetPageSize ≤ endAddr) := by omega
  have hbound : ¬(start ≤ endAddr ∧ ioMemNbEntries ≤ m) := fun hb => absurd hb.2 (not_le.mpr hlt)
  have hothers : ∀ g < 2 ^ 22, g ≠ index → isSubpage (s.desc g).physOffset →
      update ioMem idx (.subpage mmio') (ioIndex (s.desc g).physOffset) =
        s.ioMem (ioIndex (s.desc g).physOffset) := by
    intro g hg hgi hsub
    have hne := hs.own g hg hgi hsub
    rw [update_of_ne hne, hs.others _ hne]
  have hwf : PageWf dev (update ioMem idx (.subpage mmio')) index ⟨pd, 0⟩ := by
    rw [hs.pd_eq]
    refine .subpage mmio' hs.idx_lt hs.free (update_self _ _ _) fun x κ r hr => ?_
    simp only [mmio'] at hr
    split_ifs at hr with hc
    · obtain rfl := Option.some.inj hr
      exact hdevice
    · exact hs.route x κ r hr
  have hown : isSubpage pd → ∀ g < 2 ^ 22, g ≠ index → (s.desc g).physOffset ≠ pd := by
    intro _ g hg hgi heq
    rw [hs.pd_eq] at heq
    exact hs.own g hg hgi (heq ▸ hf.2.1) (heq ▸ hf.2.2)
  obtain ⟨hinv, hlookup⟩ := h.setPage htable _ ⟨pd, 0⟩ hdev' hothers hwf hown
  refine ⟨update ioMem idx (.subpage mmio'), ?_, hinv, fun a ha κ => ?_⟩
  · rw [hs.pd_eq]
    simp only [subpageRegisterAt, hf.2.2, hs.entry, subpageRegister, if_neg hpage, hm,
      if_neg hbound, Option.map_some, hdev m hdevice]
    rfl
  · rw [hlookup a ha κ]
    by_cases hgi : a / targetPageSize = index
    · have hx : a % targetPageSize < targetPageSize := Nat.mod_lt a (by decide)
      have hcall : ∀ m', ¬(ioMemInit dev m').isFree → ∀ n,
          deviceCall (update ioMem idx (.subpage mmio')) κ m' n =
            deviceCall ioMem κ m' n :=
        fun m' hm' n => deviceCall_congr ((hdev' m' hm').trans (hdev m' hm').symm) κ n
      rw [if_pos hgi, hs.pd_eq, descLookup_subpage hs.idx_lt (five_le_of_free hs.free)
        (update_self _ _ _) hx]
      simp only [hgi, true_and, mmio']
      split_ifs with hc
      · rw [Option.bind_some, hcall m hdevice, deviceCall, hdev m hdevice, if_pos hc.2]
      -- what the page got before
      · rw [PhysMem.lookup_eq s ha, hgi, ← hs.lookup _ hx, hs.pd_eq,
          descLookup_subpage hs.idx_lt (five_le_of_free hs.free) hs.entry hx]
        cases hr : mmio.route (a % targetPageSize) κ with
        | none => rfl
        | some r => exact hcall r.1 (hs.route _ _ _ hr) _
    · rw [if_neg hgi, if_neg fun hc => hgi hc.1]

end Qemu.Exec
