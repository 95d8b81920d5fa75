import Qemu.Exec.PhysMapSpec

open Qemu.Lib

namespace Qemu.Exec

/-!
# Calls of `cpu_register_physical_memory_offset`

* `registerPage_spec` — one turn of the loop;
* `registerPages_spec`, `Registration.exec_spec` — one call;
* `physLookup_lastTarget` — every sequence of good calls.
-/

variable {dev : ℕ → Option (Access → Bool)}

/-! ### One turn of the loop -/

theorem pageMask_add {offset c : ℕ} (h : offset % targetPageSize = 0) (hc : c < targetPageSize) :
    pageMask (offset + c) = offset ∧ (offset + c) % targetPageSize = c := by
  simp only [pageMask, targetPageSize] at *
  omega

/-- The descriptor of memory. -/
theorem flags_memory {offset c : ℕ} (h : offset % targetPageSize = 0) (hc : c < targetPageSize)
    (hlow : c ≤ 8 ∨ c % 2 = 1) (hflags : c / 2 % 4 = 0) :
    memoryLike (offset + c) = true ∧ isSubpage (offset + c) = false ∧
      isSubwidth (offset + c) = false ∧ ioIndex (offset + c) = c / 8 := by
  simp only [targetPageSize] at h hc
  refine ⟨?_, ?_, ?_, ?_⟩
  · rw [memoryLike_iff]
    omega
  · rw [isSubpage_eq, decide_eq_false_iff_not]
    omega
  · rw [isSubwidth_eq, decide_eq_false_iff_not]
    omega
  · simp only [ioIndex, ioMemShift, ioMemNbEntries]
    omega

variable {idx : ℕ} {ioMem : ℕ → IoEntry}

theorem ioMemoryAddress_full (h : ∀ κ, (ioMem idx).handles κ) :
    ioMemoryAddress ioMem idx = idx * 8 := by
  rw [ioMemoryAddress, if_pos h]
  rfl

/-- The low bits of the descriptor of a memory region. -/
def MemKind.lowBits : MemKind → ℕ
  | .ram _ => 0
  | .rom _ => ioMemRom
  | .romd _ idx => idx * 8 + 1
  | .io _ => 0

/-- The first address of a memory region. -/
def MemKind.base : MemKind → ℕ
  | .ram offset | .rom offset | .romd offset _ => offset
  | .io _ => 0

variable {kind : MemKind}

/-- The offset of memory is the base of a page with the low bits of its kind. -/
theorem MemKind.physOffset_memory (hk : kind.Wf dev) (hio : kind.isIo = false) :
    kind.physOffset (ioMemInit dev) = kind.base + kind.lowBits ∧
      kind.base % targetPageSize = 0 ∧ kind.lowBits < targetPageSize ∧
      (kind.lowBits ≤ 8 ∨ kind.lowBits % 2 = 1) ∧ kind.lowBits / 2 % 4 = 0 := by
  cases kind with
  | ram offset =>
    exact ⟨rfl, hk, (by decide : 0 < targetPageSize), Or.inl (Nat.zero_le 8),
      (by decide : 0 / 2 % 4 = 0)⟩
  | rom offset =>
    exact ⟨rfl, hk, (by decide : ioMemRom < targetPageSize), Or.inl (Nat.le_refl 8),
      (by decide : ioMemRom / 2 % 4 = 0)⟩
  | romd offset idx =>
    obtain ⟨hoff, hlt, h5, hdev, hfull⟩ := hk
    refine ⟨?_, hoff, ?_, ?_, ?_⟩
    · show offset + ioMemoryAddress (ioMemInit dev) idx + 1 = offset + (idx * 8 + 1)
      rw [ioMemoryAddress_full hfull]
      omega
    · show idx * 8 + 1 < 1024
      simp only [ioMemNbEntries] at hlt
      omega
    · right
      show (idx * 8 + 1) % 2 = 1
      omega
    · show (idx * 8 + 1) / 2 % 4 = 0
      omega
  | io idx => cases hio

theorem MemKind.flags (hk : kind.Wf dev) (hio : kind.isIo = false) :
    memoryLike (kind.physOffset (ioMemInit dev)) = true ∧
      isSubpage (kind.physOffset (ioMemInit dev)) = false ∧
      isSubwidth (kind.physOffset (ioMemInit dev)) = false ∧
      ioIndex (kind.physOffset (ioMemInit dev)) = kind.lowBits / 8 := by
  obtain ⟨hpd, hbase, hlt, hlow, hflags⟩ := MemKind.physOffset_memory hk hio
  rw [hpd]
  exact flags_memory hbase hlt hlow hflags

theorem MemKind.io_or_memory (kind : MemKind) : (∃ idx, kind = .io idx) ∨ kind.isIo = false := by
  cases kind with
  | io idx => exact Or.inl ⟨idx, rfl⟩
  | ram | rom | romd => exact Or.inr rfl

theorem ioMemInit_isSome {m : ℕ} (h5 : 5 ≤ m) (h : (dev m).isSome) : ¬(ioMemInit dev m).isFree := by
  obtain ⟨m, rfl⟩ := Nat.exists_eq_add_of_le' h5
  obtain ⟨handles, hd⟩ := Option.isSome_iff_exists.mp h
  have hm : ioMemInit dev (m + 5) = (dev (m + 5)).elim .free .device := rfl
  rw [hm, hd]
  exact Bool.false_ne_true

theorem MemKind.Wf.io_bounds (h : (MemKind.io idx).Wf dev) :
    idx < ioMemNbEntries ∧ 2 ≤ idx ∧ ¬(ioMemInit dev idx).isFree := by
  obtain ⟨hlt, rfl | ⟨h5, hdev⟩⟩ := h
  · exact ⟨hlt, le_rfl, Bool.false_ne_true⟩
  · exact ⟨hlt, by omega, ioMemInit_isSome h5 hdev⟩

/-- The descriptor of a device as it is registered. -/
theorem flags_io (h : (MemKind.io idx).Wf dev) :
    memoryLike (ioMemoryAddress (ioMemInit dev) idx) = false ∧
      (isSubwidth (ioMemoryAddress (ioMemInit dev) idx) = true ↔
        ¬∀ κ, (ioMemInit dev idx).handles κ) ∧
      ioIndex (ioMemoryAddress (ioMemInit dev) idx) = idx ∧
      ioMemoryAddress (ioMemInit dev) idx / 2 ^ ioMemShift = idx := by
  obtain ⟨hlt, h2, -⟩ := h.io_bounds
  unfold ioMemoryAddress
  simp only [ioMemShift, ioMemNbEntries] at *
  split_ifs with hfull
  · have hf := flags_device hlt h2
    exact ⟨hf.1, iff_of_false (Bool.eq_false_iff.mp hf.2.2.1) (not_not_intro hfull), hf.2.2.2,
      Nat.mul_div_cancel idx (by decide)⟩
  · refine ⟨?_, iff_of_true ?_ hfull, ?_, ?_⟩
    · rw [Bool.eq_false_iff, ne_eq, memoryLike_iff]
      omega
    · rw [isSubwidth_eq, decide_eq_true_iff]
      omega
    · simp only [ioIndex, ioMemShift, ioMemNbEntries]
      omega
    · omega

theorem MemKind.Wf.io_full (h : (MemKind.io idx).Wf dev)
    (hwidth : isSubwidth ((MemKind.io idx).physOffset (ioMemInit dev)) = false) (κ : Access) :
    (ioMemInit dev idx).handles κ := by
  by_contra hn
  exact Bool.eq_false_iff.mp hwidth ((flags_io h).2.1.mpr fun hall => hn (hall κ))

/-- A page of ROM: writes go to a device. -/
theorem descLookup_rom {pd m : ℕ} (hmem : memoryLike pd = true)
    (hlow : pd % targetPageSize ≠ ioMemRam) (hidx : ioIndex pd = m)
    (hdev : ioMem m = ioMemInit dev m) {κ : Access}
    (hwrite : κ.write = true → (ioMemInit dev m).handles κ) (reg x : ℕ) :
    descLookup ioMem ⟨pd, reg⟩ x κ =
      some (if κ.write then .io m ((x + reg) % 2 ^ 32) else .ram (pageMask pd + x)) := by
  unfold descLookup ramAccess
  cases hw : κ.write with
  | false => simp only [hmem, Bool.false_eq_true, if_false, if_true]
  | true =>
    have hcall := hwrite hw
    simp only [beq_false_of_ne hlow, hidx, if_true, Bool.false_eq_true, if_false,
      ioCall_device hdev, deviceCall, hdev, hcall, Nat.mod_mod]

variable {reg : ℕ}

/-- A page taken over whole. -/
theorem descLookup_whole {kind : MemKind} (hk : kind.Wf dev)
    (hwidth : isSubwidth (kind.physOffset (ioMemInit dev)) = false) {ioMem : ℕ → IoEntry}
    (hdev : ∀ m, ¬(ioMemInit dev m).isFree → ioMem m = ioMemInit dev m) {reg reg' : ℕ}
    (hreg : kind.physOffset (ioMemInit dev) % targetPageSize = ioMemRam ∨
      reg' % 2 ^ 32 = reg % 2 ^ 32) (a x : ℕ) (κ : Access) :
    descLookup ioMem ⟨kind.physOffset (ioMemInit dev), reg'⟩ x κ =
      some (kind.target (fun idx => (ioMemInit dev idx).handles) κ a x ((x + reg) % 2 ^ 32)) := by
  have haddr : reg' % 2 ^ 32 = reg % 2 ^ 32 → (x + reg') % 2 ^ 32 = (x + reg) % 2 ^ 32 := by
    intro h
    rw [Nat.add_mod, h, ← Nat.add_mod]
  -- the kind decides which bits of the descriptor carry the address
  cases kind with
  | io idx =>
    obtain ⟨hlt, h2, hfree⟩ := hk.io_bounds
    have hfull := hk.io_full hwidth
    have hpd : (MemKind.io idx).physOffset (ioMemInit dev) = idx * 8 := ioMemoryAddress_full hfull
    rw [hpd] at hreg ⊢
    have hlow : idx * 8 % targetPageSize ≠ ioMemRam := by
      simp only [targetPageSize, ioMemRam, ioMemNbEntries] at *
      omega
    rw [descLookup_device hlt h2 (hdev idx hfree), deviceCall, hdev idx hfree, if_pos (hfull κ),
      haddr (hreg.resolve_left hlow), MemKind.target, if_pos (hfull κ)]
  | ram offset =>
    have hoff : offset % targetPageSize = 0 := hk
    have hmask : pageMask offset = offset := (pageMask_add hoff (by decide : 0 < targetPageSize)).1
    show descLookup ioMem ⟨offset, reg'⟩ x κ = some (.ram (offset + x))
    rw [descLookup, if_pos (ramAccess_of_ram κ hoff), hmask]
  | rom offset =>
    have hoff : offset % targetPageSize = 0 := hk
    obtain ⟨hmask, hmod⟩ := pageMask_add hoff (by decide : ioMemRom < targetPageSize)
    have hf := flags_memory hoff (by decide : ioMemRom < targetPageSize) (Or.inl le_rfl) rfl
    show descLookup ioMem ⟨offset + ioMemRom, reg'⟩ x κ = _
    have hlow : (offset + ioMemRom) % targetPageSize ≠ ioMemRam := by
      rw [hmod]
      decide
    rw [descLookup_rom hf.1 hlow hf.2.2.2 (hdev 1 Bool.false_ne_true) (fun hw => hw), hmask,
      haddr (hreg.resolve_left hlow)]
    rfl
  | romd offset idx =>
    obtain ⟨hoff, hlt, h5, hsome, hfull⟩ := hk
    have hfree := ioMemInit_isSome h5 hsome
    have hpd : (MemKind.romd offset idx).physOffset (ioMemInit dev) = offset + (idx * 8 + 1) := by
      show offset + ioMemoryAddress (ioMemInit dev) idx + 1 = _
      rw [ioMemoryAddress_full hfull, Nat.add_assoc]
    have hbits : idx * 8 + 1 < targetPageSize := by
      simp only [targetPageSize, ioMemNbEntries] at *
      omega
    obtain ⟨hmask, hmod⟩ := pageMask_add hoff hbits
    have hf := flags_memory hoff hbits (Or.inr (by omega)) (by omega)
    rw [hpd] at hreg ⊢
    have hlow : (offset + (idx * 8 + 1)) % targetPageSize ≠ ioMemRam := by
      rw [hmod]
      exact Nat.succ_ne_zero _
    have hidx : ioIndex (offset + (idx * 8 + 1)) = idx := by
      rw [hf.2.2.2]
      omega
    rw [descLookup_rom hf.1 hlow hidx (hdev idx hfree) (fun _ => hfull κ), hmask,
      haddr (hreg.resolve_left hlow)]
    rfl

/-- A page that is given to one region as a whole. -/
theorem PageWf.whole (hk : kind.Wf dev)
    (hwidth : isSubwidth (kind.physOffset (ioMemInit dev)) = false) (ioMem : ℕ → IoEntry) {g : ℕ}
    (hreg : kind = .io 2 → reg % 2 ^ 32 = g * targetPageSize) :
    PageWf dev ioMem g ⟨kind.physOffset (ioMemInit dev), reg⟩ ∧
      isSubpage (kind.physOffset (ioMemInit dev)) = false := by
  rcases kind.io_or_memory with ⟨idx, rfl⟩ | hio
  · obtain ⟨hlt, h2, hfree⟩ := hk.io_bounds
    have hpd : (MemKind.io idx).physOffset (ioMemInit dev) = idx * 8 :=
      ioMemoryAddress_full (hk.io_full hwidth)
    rw [hpd]
    exact ⟨.device hlt h2 hfree fun h => hreg (by rw [h]), (flags_device hlt h2).2.1⟩
  · obtain ⟨hmem, hns, -, hidx⟩ := MemKind.flags hk hio
    refine ⟨.memory hmem (Bool.eq_false_iff.mp hns) ?_, hns⟩
    rw [hidx]
    cases kind with
    | ram offset => exact Or.inl hk
    | rom offset =>
      right
      have hidx : (MemKind.rom offset).lowBits / 8 = 1 := by
        show ioMemRom / 8 = 1
        decide
      rw [hidx]
      exact Bool.false_ne_true
    | romd offset idx =>
      right
      have hidx : (MemKind.romd offset idx).lowBits / 8 = idx := by
        show (idx * 8 + 1) / 8 = idx
        omega
      rw [hidx]
      exact ioMemInit_isSome hk.2.2.1 hk.2.2.2.1
    | io idx => cases hio

theorem checkSubpage_lt (addr startAddr origSize : ℕ) :
    (checkSubpage addr startAddr origSize).1 < targetPageSize ∧
      (checkSubpage addr startAddr origSize).2.1 < targetPageSize := by
  simp only [checkSubpage, targetPageSize]
  constructor <;> split_ifs <;> omega

variable {addr origSize startAddr : ℕ}

/-- Without a subpage the whole page is registered. -/
theorem checkSubpage_whole (h : (checkSubpage addr startAddr origSize).2.2 = false) :
    (checkSubpage addr startAddr origSize).1 = 0 ∧
      (checkSubpage addr startAddr origSize).2.1 = targetPageSize - 1 := by
  have hlt := (checkSubpage_lt addr startAddr origSize).2
  obtain ⟨hstart, hend⟩ := Bool.or_eq_false_iff.mp h
  have hstart : ¬0 < (checkSubpage addr startAddr origSize).1 := of_decide_eq_false hstart
  have hend : ¬(checkSubpage addr startAddr origSize).2.1 < targetPageSize - 1 :=
    of_decide_eq_false hend
  omega

/-- What a turn of the loop is for: the part of the page that is registered goes to what is
    registered, and every other address where it went. -/
def PageSpec (dev : ℕ → Option (Access → Bool)) (kind : MemKind) (addr reg : ℕ)
    (check : ℕ × ℕ × Bool) (s s' : PhysMem) : Prop :=
  MapInv dev s' ∧ ∀ a < 2 ^ 32, ∀ κ, s'.lookup a κ =
    if a / targetPageSize = addr / targetPageSize ∧ check.1 ≤ a % targetPageSize ∧
        a % targetPageSize ≤ check.2.1 then
      some (kind.target (fun idx => (ioMemInit dev idx).handles) κ a (a % targetPageSize)
        ((a % targetPageSize + reg) % 2 ^ 32))
    else s.lookup a κ

variable {s : PhysMem}

/-- A page that is shared keeps the invariant, and behaves as the registration says. -/
theorem Shared.page {s : PhysMem} (h : MapInv dev s) {idx addr : ℕ} (hk : (MemKind.io idx).Wf dev)
    (htable : (s.l1PhysMap (addr / targetPageSize / l2Size)).isNone →
      addr / targetPageSize % l2Size = 0)
    {check : ℕ × ℕ × Bool} (hstart : check.1 < targetPageSize) (hend : check.2.1 < targetPageSize)
    (hmissing : ∀ κ, ¬(ioMemInit dev idx).handles κ → ∀ x < targetPageSize, check.1 ≤ x →
      x ≤ check.2.1 → s.lookup (pageMask addr + x) κ = some (.io 2 (pageMask addr + x)))
    {pd idx' : ℕ} {ioMem : ℕ → IoEntry} {mmio : Subpage}
    (hs : Shared dev s (addr / targetPageSize) pd ioMem idx' mmio) (reg : ℕ) :
    ∃ s', (subpageRegisterAt ioMem pd check.1 check.2.1
        ((MemKind.io idx).physOffset (ioMemInit dev)) reg).map
        (fun ioMem => (PhysMem.mk s.l1PhysMap ioMem).setPage (addr / targetPageSize) ⟨pd, 0⟩) =
      some s' ∧ PageSpec dev (.io idx) addr reg check s s' := by
  obtain ⟨hlt, -, hfree⟩ := hk.io_bounds
  obtain ⟨ioMem', hreg', hinv, hlookup⟩ :=
    hs.register h htable hstart hend (flags_io hk).2.2.2 hlt hfree
  refine ⟨_, congrArg (Option.map _) hreg', hinv, fun a ha κ => ?_⟩
  have htarget : (MemKind.io idx).target (fun idx => (ioMemInit dev idx).handles) κ a
      (a % targetPageSize) ((a % targetPageSize + reg) % 2 ^ 32) =
      if (ioMemInit dev idx).handles κ then .io idx ((a % targetPageSize + reg) % 2 ^ 32)
      else .io 2 a := rfl
  rw [hlookup a ha κ, htarget]
  by_cases hr : a / targetPageSize = addr / targetPageSize ∧ check.1 ≤ a % targetPageSize ∧
      a % targetPageSize ≤ check.2.1
  · rw [if_pos hr]
    by_cases hh : (ioMemInit dev idx).handles κ
    · rw [if_pos ⟨hr.1, hr.2, hh⟩, if_pos hh]
    -- no handler: the address was unassigned
    · rw [if_neg fun hc => hh hc.2.2, if_neg hh]
      have ha' : pageMask addr + a % targetPageSize = a := by
        rw [pageMask, ← hr.1, Nat.div_add_mod']
      have hm := hmissing κ hh (a % targetPageSize) (Nat.mod_lt a (by decide)) hr.2.1 hr.2.2
      rwa [ha'] at hm
  · rw [if_neg hr, if_neg fun hc => hr ⟨hc.1, hc.2.1⟩]

/-- An unassigned page has its own address as region offset. -/
theorem MapInv.unassigned (h : MapInv dev s) (haddr : addr < 2 ^ 32)
    (hun : (s.desc (addr / targetPageSize)).physOffset = ioMemUnassigned) :
    pageMask addr % 2 ^ 32 = (s.desc (addr / targetPageSize)).regionOffset % 2 ^ 32 := by
  have hindex : addr / targetPageSize < 2 ^ 22 := by
    simp only [targetPageSize]
    omega
  have hwf := h.page _ hindex
  generalize s.desc (addr / targetPageSize) = p at hwf hun ⊢
  cases hwf with
  | @memory pd _ hm =>
    have hpd : pd = ioMemUnassigned := hun
    rw [hpd] at hm
    exact absurd hm (by decide)
  | @device m reg _ _ _ hown =>
    have hm : m = 2 := by
      simp only [ioMemUnassigned] at hun
      omega
    show _ = reg % 2 ^ 32
    rw [hown hm]
    exact Nat.mod_eq_of_lt (lt_of_le_of_lt (Nat.div_mul_le_self _ _) haddr)
  | @subpage idx =>
    simp only [ioMemUnassigned] at hun
    omega

/-- **One turn of the loop.** -/
theorem registerPage_spec (h : MapInv dev s) (hk : kind.Wf dev) (haddr : addr < 2 ^ 32)
    (hwhole : kind.isIo = false → (checkSubpage addr startAddr origSize).2.2 = false)
    (hreg : kind = .io 2 → reg % 2 ^ 32 = pageMask addr)
    (hok : PageOk startAddr origSize addr (kind.physOffset (ioMemInit dev)) reg s) :
    ∃ s', registerPage startAddr origSize addr (kind.physOffset (ioMemInit dev)) reg s = some s' ∧
      PageSpec dev kind addr reg (checkSubpage addr startAddr origSize) s s' := by
  obtain ⟨htable, hpage, hmissing⟩ := hok
  have hindex : addr / targetPageSize < 2 ^ 22 := by
    simp only [targetPageSize]
    omega
  obtain ⟨hstart, hend⟩ := checkSubpage_lt addr startAddr origSize
  unfold registerPage
  simp only [PhysMem.pageFind_filter]
  generalize hcheck : checkSubpage addr startAddr origSize = check at *
  by_cases hsplit : (check.2.2 || isSubwidth (kind.physOffset (ioMemInit dev))) = true
  -- the page is shared
  · rw [if_pos hsplit] at hpage
    obtain ⟨hmem, hroom⟩ := hpage
    obtain ⟨idx, rfl⟩ : ∃ idx, kind = .io idx := by
      refine kind.io_or_memory.resolve_right fun hio => ?_
      rw [hwhole hio, (MemKind.flags hk hio).2.2.1] at hsplit
      cases hsplit
    obtain ⟨-, -, hfree⟩ := hk.io_bounds
    obtain ⟨hmemory, hwidth, hioIndex, -⟩ := flags_io hk
    have hpd : (MemKind.io idx).physOffset (ioMemInit dev) = ioMemoryAddress (ioMemInit dev) idx :=
      rfl
    rw [hpd, hioIndex, h.devices idx hfree] at hmissing
    have hmissing' := fun κ hh => hmissing (hwidth.mpr fun hall => hh (hall κ)) κ hh
    by_cases hun : (s.desc (addr / targetPageSize)).physOffset = ioMemUnassigned
    -- a new page
    · have hroom' := hroom.resolve_left (by rw [hun]; decide)
      obtain ⟨pd, ioMem, idx', mmio, hinit, hs⟩ := subpageInit_shared h
        (by decide : 2 < ioMemNbEntries) le_rfl Bool.false_ne_true hroom' hun
        (h.unassigned haddr hun)
      obtain ⟨s', hs', hspec⟩ := hs.page h hk htable hstart hend hmissing' reg
      refine ⟨s', ?_, hspec⟩
      rw [if_pos hun, hpd, hmemory, ← hpd, hsplit]
      show (subpageInit s.ioMem (2 * 8) (pageMask addr)).bind _ = some s'
      rw [hinit]
      exact hs'
    · obtain ⟨pd, ioMem, idx', mmio, hinit, hs⟩ := pageSubpage_shared h hindex hmem hroom
      obtain ⟨s', hs', hspec⟩ := hs.page h hk htable hstart hend hmissing' reg
      refine ⟨s', ?_, hspec⟩
      rw [if_neg hun]
      simp only [hsplit, if_true, hinit, Option.bind_some]
      exact hs'
  -- the page is taken over whole
  · rw [if_neg hsplit] at hpage
    have hsplit' := Bool.eq_false_iff.mpr hsplit
    obtain ⟨hneed, hwidth⟩ := Bool.or_eq_false_iff.mp hsplit'
    obtain ⟨h0, hlast⟩ := checkSubpage_whole (hcheck ▸ hneed)
    rw [hcheck] at h0 hlast
    have hset : ∀ reg', (kind.physOffset (ioMemInit dev) % targetPageSize = ioMemRam ∨
        reg' % 2 ^ 32 = reg % 2 ^ 32) → PageSpec dev kind addr reg check s
        (s.setPage (addr / targetPageSize) ⟨kind.physOffset (ioMemInit dev), reg'⟩) := by
      intro reg' hreg'
      have hown : kind = .io 2 → reg' % 2 ^ 32 = addr / targetPageSize * targetPageSize := by
        rintro rfl
        refine (hreg'.resolve_left ?_).trans (hreg rfl)
        show ioMemoryAddress (ioMemInit dev) 2 % 1024 ≠ 0
        rw [ioMemoryAddress_full fun _ => rfl]
        decide
      obtain ⟨hwf, hns⟩ := PageWf.whole hk hwidth s.ioMem hown
      obtain ⟨hinv, hlookup⟩ := h.setPage htable s.ioMem ⟨_, reg'⟩ h.devices (fun _ _ _ _ => rfl)
        hwf fun hsub => by cases hns.symm.trans hsub
      refine ⟨hinv, fun a ha κ => (hlookup a ha κ).trans ?_⟩
      have hx : a % targetPageSize ≤ targetPageSize - 1 :=
        Nat.le_sub_one_of_lt (Nat.mod_lt a (by decide))
      rw [h0, hlast]
      simp only [Nat.zero_le, hx, and_true]
      rw [descLookup_whole hk hwidth h.devices hreg' a]
    by_cases hun : (s.desc (addr / targetPageSize)).physOffset = ioMemUnassigned
    · refine ⟨_, ?_, hset reg (Or.inr rfl)⟩
      simp only [hun, if_true, hsplit', Bool.not_false, Bool.or_true]
    · refine ⟨_, ?_, hset _ (hpage.resolve_left hun)⟩
      simp only [hun, if_false, hsplit', Bool.false_eq_true]

/-! ### The loop -/

/-- What is registered `n` bytes into it. -/
def MemKind.advance (n : ℕ) : MemKind → MemKind
  | .ram offset => .ram (offset + n)
  | .rom offset => .rom (offset + n)
  | .romd offset idx => .romd (offset + n) idx
  | .io idx => .io idx

theorem MemKind.Wf.advance (hk : kind.Wf dev) {n : ℕ} (hn : n % targetPageSize = 0) :
    (kind.advance n).Wf dev := by
  have hadd : ∀ offset, offset % targetPageSize = 0 → (offset + n) % targetPageSize = 0 := by
    intro offset h
    rw [Nat.add_mod, h, hn]
    rfl
  cases kind with
  | ram offset => exact hadd offset hk
  | rom offset => exact hadd offset hk
  | romd offset idx => exact ⟨hadd offset hk.1, hk.2⟩
  | io idx => exact hk

theorem MemKind.isIo_advance (kind : MemKind) (n : ℕ) : (kind.advance n).isIo = kind.isIo := by
  cases kind <;> rfl

theorem MemKind.advance_advance (kind : MemKind) (n m : ℕ) :
    (kind.advance n).advance m = kind.advance (n + m) := by
  cases kind <;> simp only [MemKind.advance, Nat.add_assoc]

/-- The loop advances `phys_offset` if it is memory, which takes its pages whole. -/
theorem nextPhysOffset_advance (hk : kind.Wf dev)
    (hwhole : kind.isIo = false → (checkSubpage addr startAddr origSize).2.2 = false)
    (s : PhysMem) :
    nextPhysOffset startAddr origSize addr (kind.physOffset (ioMemInit dev)) s =
      (kind.advance targetPageSize).physOffset (ioMemInit dev) := by
  unfold nextPhysOffset
  rcases kind.io_or_memory with ⟨idx, rfl⟩ | hio
  · have hio : memoryLike (MemKind.physOffset (ioMemInit dev) (.io idx)) = false := (flags_io hk).1
    simp only [hio, Bool.false_and, Bool.false_eq_true, if_false]
    rfl
  · obtain ⟨hmem, -, hwidth, -⟩ := MemKind.flags hk hio
    simp only [hmem, hwidth, hwhole hio, Bool.or_self, Bool.and_false, Bool.not_false,
      Bool.and_self, if_true]
    cases kind with
    | ram offset => rfl
    | rom offset => exact Nat.add_right_comm offset ioMemRom targetPageSize
    | romd offset idx =>
      show offset + ioMemoryAddress (ioMemInit dev) idx + 1 + targetPageSize =
        offset + targetPageSize + ioMemoryAddress (ioMemInit dev) idx + 1
      omega
    | io idx => cases hio

variable {k : ℕ} {r : Registration}

/-- The part of page `k` of a range that is registered is the part of the range in it. -/
theorem checkSubpage_covers (hk : k * targetPageSize < r.size)
    (hfit : r.start % targetPageSize + r.size ≤ pageMask (r.size + targetPageSize - 1)) (a : ℕ) :
    (a / targetPageSize = (r.start + k * targetPageSize) / targetPageSize ∧
      (checkSubpage (r.start + k * targetPageSize) r.start r.size).1 ≤ a % targetPageSize ∧
      a % targetPageSize ≤ (checkSubpage (r.start + k * targetPageSize) r.start r.size).2.1) ↔
    r.Covers a ∧ a / targetPageSize = r.start / targetPageSize + k := by
  simp only [checkSubpage, Registration.Covers, pageMask, targetPageSize] at *
  split_ifs <;> omega

/-- Pages that are registered as a whole are not shared. -/
theorem checkSubpage_aligned {start size : ℕ} (hk : k * targetPageSize < size)
    (hstart : start % targetPageSize = 0) (hsize : size % targetPageSize = 0) :
    (checkSubpage (start + k * targetPageSize) start size).2.2 = false := by
  have h0 : ¬0 < (checkSubpage (start + k * targetPageSize) start size).1 := by
    simp only [checkSubpage, targetPageSize] at *
    split_ifs <;> omega
  have hlast :
      ¬(checkSubpage (start + k * targetPageSize) start size).2.1 < targetPageSize - 1 := by
    simp only [checkSubpage, targetPageSize] at *
    split_ifs <;> omega
  exact Bool.or_eq_false_iff.mpr ⟨decide_eq_false h0, decide_eq_false hlast⟩

/-- Only the unassigned device has its offset. -/
theorem physOffset_eq_unassigned (hk : kind.Wf dev) :
    kind.physOffset (ioMemInit dev) = ioMemUnassigned ↔ kind = .io 2 := by
  rcases kind.io_or_memory with ⟨idx, rfl⟩ | hio
  · have hdiv := (flags_io hk).2.2.2
    constructor
    · intro h
      have haddr : ioMemoryAddress (ioMemInit dev) idx = ioMemUnassigned := h
      rw [← hdiv, haddr]
      rfl
    · rintro ⟨⟩
      exact ioMemoryAddress_full fun _ => rfl
  · have hmem := (MemKind.flags hk hio).1
    refine iff_of_false (fun h => ?_) (fun h => by rw [h] at hio; cases hio)
    rw [h] at hmem
    exact absurd hmem (by decide)

/-- What page `k` gets is what the registration gives. -/
theorem target_advance (hposs : r.Possible dev) {a : ℕ} (hcov : r.Covers a)
    (hpage : a / targetPageSize = r.start / targetPageSize + k) (handles : ℕ → Access → Bool)
    (κ : Access) :
    (r.kind.advance (k * targetPageSize)).target handles κ a (a % targetPageSize)
      ((a % targetPageSize + (firstRegionOffset r.start (r.kind.physOffset (ioMemInit dev))
        r.regionOffset + k * targetPageSize)) % 2 ^ 32) = r.target handles a κ := by
  have hoffset : (a % targetPageSize + (firstRegionOffset r.start
      (r.kind.physOffset (ioMemInit dev)) r.regionOffset + k * targetPageSize)) % 2 ^ 32 =
      r.offset a := by
    unfold Registration.offset firstRegionOffset
    simp only [physOffset_eq_unassigned hposs.1]
    congr 1
    simp only [pageMask, targetPageSize, Registration.Covers] at *
    omega
  have hram : r.kind.isIo = false → k * targetPageSize + a % targetPageSize = a - r.start := by
    intro hio
    obtain ⟨hstart, -⟩ := hposs.2.resolve_left (Bool.eq_false_iff.mp hio)
    simp only [targetPageSize, Registration.Covers] at *
    omega
  rw [hoffset]
  unfold Registration.target
  cases hk : r.kind with
  | ram offset =>
    have h := hram (by rw [hk]; rfl)
    simp only [MemKind.advance, MemKind.target, Nat.add_assoc, h]
  | rom offset =>
    have h := hram (by rw [hk]; rfl)
    simp only [MemKind.advance, MemKind.target, Nat.add_assoc, h]
  | romd offset idx =>
    have h := hram (by rw [hk]; rfl)
    simp only [MemKind.advance, MemKind.target, Nat.add_assoc, h]
  | io idx => rfl

theorem page_lt_size {n size : ℕ}
    (h : (k + (n + 1)) * targetPageSize = pageMask (size + targetPageSize - 1)) :
    k * targetPageSize < size := by
  simp only [pageMask, targetPageSize] at *
  omega

theorem pageMask_add_pages (a k : ℕ) :
    pageMask a + k * targetPageSize = pageMask (a + k * targetPageSize) := by
  rw [pageMask, pageMask, Nat.add_mul_div_right _ _ (by decide), Nat.add_mul]

/-- The loop from page `k` on. -/
theorem registerPages_spec (hposs : r.Possible dev) (hrange : r.start + r.size ≤ 2 ^ 32)
    (hfit : r.start % targetPageSize + r.size ≤ pageMask (r.size + targetPageSize - 1)) :
    ∀ (n k addr : ℕ) (s : PhysMem),
      (k + n) * targetPageSize = pageMask (r.size + targetPageSize - 1) →
      (n ≠ 0 → addr = r.start + k * targetPageSize) → MapInv dev s →
      PagesOk r.start r.size n addr
        ((r.kind.advance (k * targetPageSize)).physOffset (ioMemInit dev))
        (firstRegionOffset r.start (r.kind.physOffset (ioMemInit dev)) r.regionOffset +
          k * targetPageSize) s →
      ∃ s', registerPages r.start r.size n addr
          ((r.kind.advance (k * targetPageSize)).physOffset (ioMemInit dev))
          (firstRegionOffset r.start (r.kind.physOffset (ioMemInit dev)) r.regionOffset +
            k * targetPageSize) s = some s' ∧ MapInv dev s' ∧
        ∀ a < 2 ^ 32, ∀ κ, s'.lookup a κ =
          if r.Covers a ∧ r.start / targetPageSize + k ≤ a / targetPageSize then
            some (r.target (fun idx => (ioMemInit dev idx).handles) a κ)
          else s.lookup a κ := by
  intro n
  induction n with
  | zero =>
    intro k addr s hturns _ h _
    refine ⟨s, rfl, h, fun a ha κ => (if_neg ?_).symm⟩
    rintro ⟨hcov, hle⟩
    simp only [pageMask, targetPageSize, Registration.Covers] at *
    omega
  | succ n ih =>
    intro k addr s hturns haddr h hok
    obtain rfl := haddr (Nat.succ_ne_zero n)
    have hk := page_lt_size hturns
    have hmod : k * targetPageSize % targetPageSize = 0 := Nat.mul_mod_left k targetPageSize
    have hwf := hposs.1.advance hmod
    have hwhole : (r.kind.advance (k * targetPageSize)).isIo = false →
        (checkSubpage (r.start + k * targetPageSize) r.start r.size).2.2 = false := by
      intro hio
      rw [MemKind.isIo_advance] at hio
      obtain ⟨hstart, hsize⟩ := hposs.2.resolve_left (Bool.eq_false_iff.mp hio)
      exact checkSubpage_aligned hk hstart hsize
    -- unassigned memory has its own address as region offset
    have hreg : r.kind.advance (k * targetPageSize) = .io 2 →
        (firstRegionOffset r.start (r.kind.physOffset (ioMemInit dev)) r.regionOffset +
          k * targetPageSize) % 2 ^ 32 = pageMask (r.start + k * targetPageSize) := by
      intro hio
      have hkind : r.kind = .io 2 := by
        cases hr : r.kind with
        | io idx =>
          rw [hr] at hio
          exact hio
        | ram | rom | romd => rw [hr] at hio; cases hio
      rw [firstRegionOffset, if_pos ((physOffset_eq_unassigned hposs.1).mpr hkind),
        pageMask_add_pages]
      exact Nat.mod_eq_of_lt (lt_of_le_of_lt (Nat.div_mul_le_self _ _) (by omega))
    obtain ⟨s₁, h₁, hinv, hlookup⟩ := registerPage_spec h hwf (by omega) hwhole hreg hok.1
    have hnext := nextPhysOffset_advance hwf hwhole s
    rw [MemKind.advance_advance, ← Nat.add_one_mul] at hnext
    have hregion : ∀ reg, reg + k * targetPageSize + targetPageSize =
        reg + (k + 1) * targetPageSize := fun reg => by rw [Nat.add_assoc, ← Nat.add_one_mul]
    have hok' := hok.2 s₁ h₁
    rw [hnext, hregion (firstRegionOffset _ _ _)] at hok'
    have haddr' : n ≠ 0 → (r.start + k * targetPageSize + targetPageSize) % 2 ^ 32 =
        r.start + (k + 1) * targetPageSize := by
      intro hn
      obtain ⟨m, rfl⟩ := Nat.exists_eq_succ_of_ne_zero hn
      have hk' : (k + 1) * targetPageSize < r.size := by
        apply page_lt_size (n := m)
        rw [← hturns]
        congr 1
        omega
      rw [Nat.add_assoc, ← Nat.add_one_mul]
      exact Nat.mod_eq_of_lt (by omega)
    have hturns' : (k + 1 + n) * targetPageSize = pageMask (r.size + targetPageSize - 1) := by
      have hkn : k + 1 + n = k + (n + 1) := by omega
      rw [hkn]
      exact hturns
    obtain ⟨s', hs', hinv', hlookup'⟩ := ih (k + 1) _ s₁ hturns' haddr' hinv hok'
    refine ⟨s', ?_, hinv', fun a ha κ => ?_⟩
    · rw [registerPages, h₁, Option.bind_some, hnext, hregion (firstRegionOffset _ _ _)]
      exact hs'
    · simp only [hlookup' a ha κ, hlookup a ha κ, checkSubpage_covers hk hfit a]
      by_cases hcov : r.Covers a
      · by_cases hpage : a / targetPageSize = r.start / targetPageSize + k
        · rw [if_neg (by omega), if_pos ⟨hcov, hpage⟩, if_pos ⟨hcov, hpage.ge⟩,
            target_advance hposs hcov hpage]
        · have hle : r.start / targetPageSize + (k + 1) ≤ a / targetPageSize ↔
              r.start / targetPageSize + k ≤ a / targetPageSize := by omega
          have hneg : ¬(r.Covers a ∧ a / targetPageSize = r.start / targetPageSize + k) :=
            fun hc => hpage hc.2
          simp only [if_neg hneg, hle]
      · rw [if_neg fun hc => hcov hc.1, if_neg fun hc => hcov hc.1, if_neg fun hc => hcov hc.1]

/-- **One call.** -/
theorem Registration.exec_spec (h : MapInv dev s) (hposs : r.Possible dev) (hgood : r.Good s) :
    ∃ s', r.exec s = some s' ∧ MapInv dev s' ∧ ∀ a < 2 ^ 32, ∀ κ, s'.lookup a κ =
      if r.Covers a then some (r.target (fun idx => (ioMemInit dev idx).handles) a κ)
      else s.lookup a κ := by
  obtain ⟨hrange, hsize, hfit, hok⟩ := hgood
  have hpd : r.kind.physOffset s.ioMem = r.kind.physOffset (ioMemInit dev) := by
    have hkind := hposs.1
    unfold MemKind.physOffset
    cases hk : r.kind with
    | ram | rom => rfl
    | romd offset idx =>
      rw [hk] at hkind
      simp only [ioMemoryAddress, h.devices idx (ioMemInit_isSome hkind.2.2.1 hkind.2.2.2.1)]
    | io idx =>
      rw [hk] at hkind
      simp only [ioMemoryAddress, h.devices idx hkind.io_bounds.2.2]
  have hmask : pageMask (r.size + targetPageSize - 1) % 2 ^ 32 =
      pageMask (r.size + targetPageSize - 1) := Nat.mod_eq_of_lt hsize
  have hturns : registerTurns r.size * targetPageSize =
      pageMask (r.size + targetPageSize - 1) := by
    rw [registerTurns, hmask, pageMask, Nat.mul_div_cancel _ (by decide)]
  unfold Registration.exec cpuRegisterPhysicalMemoryOffset
  rw [hpd] at hok ⊢
  rcases hfit with h0 | hfit
  -- nothing to register
  · have hnone : registerTurns r.size = 0 := by
      rw [h0]
      rfl
    rw [hnone]
    refine ⟨s, rfl, h, fun a _ κ => (if_neg fun hc => ?_).symm⟩
    simp only [Registration.Covers] at hc
    omega
  · have hadv : r.kind.advance (0 * targetPageSize) = r.kind := by
      rw [Nat.zero_mul]
      cases r.kind <;> rfl
    have hloop := registerPages_spec hposs hrange hfit (registerTurns r.size) 0 r.start s
      (by rw [Nat.zero_add]; exact hturns) (fun _ => by rw [Nat.zero_mul, Nat.add_zero]) h
    rw [hadv, Nat.zero_mul, Nat.add_zero] at hloop
    obtain ⟨s', hs', hinv, hlookup⟩ := hloop hok
    refine ⟨s', hs', hinv, fun a ha κ => ?_⟩
    rw [hlookup a ha κ]
    have hle : r.Covers a → r.start / targetPageSize + 0 ≤ a / targetPageSize :=
      fun hc => Nat.div_le_div_right hc.1
    exact if_congr (and_iff_left_of_imp hle) rfl rfl

/-! ### Runs -/

theorem lastTarget_append (handles : ℕ → Access → Bool) (regs : List Registration)
    (r : Registration) (a : ℕ) (κ : Access) :
    lastTarget handles (regs ++ [r]) a κ =
      if r.Covers a then r.target handles a κ else lastTarget handles regs a κ := by
  unfold lastTarget
  rw [List.reverse_append, List.reverse_singleton, List.singleton_append, List.find?_cons]
  by_cases hc : r.Covers a
  · rw [if_pos hc, decide_eq_true hc]
  · rw [if_neg hc, decide_eq_false hc]

theorem mapInv_init (dev : ℕ → Option (Access → Bool)) : MapInv dev (PhysMem.init dev) := by
  have hdesc : ∀ g, (PhysMem.init dev).desc g = ⟨2 * 8, g * targetPageSize⟩ := fun _ => rfl
  refine ⟨fun _ _ => rfl, fun g hg => ?_, fun g _ g' _ hsub => ?_⟩
  · rw [hdesc]
    refine .device (by decide) le_rfl Bool.false_ne_true fun _ => Nat.mod_eq_of_lt ?_
    simp only [targetPageSize]
    omega
  · rw [hdesc] at hsub
    exact absurd hsub (by decide : ¬isSubpage (2 * 8))

/-- **The physical memory map.**  In every run of calls that meet the condition, an access is
    dispatched to the last registration whose range holds its address. -/
theorem physLookup_lastTarget (dev : ℕ → Option (Access → Bool)) (regs : List Registration)
    (h : StepsMeet Registration.exec (fun s r => r.Possible dev ∧ r.Good s)
      (PhysMem.init dev) regs) :
    ∃ s, runFrom Registration.exec (PhysMem.init dev) regs = some s ∧ ∀ a < 2 ^ 32, ∀ κ,
      s.lookup a κ = some (lastTarget (fun idx => (ioMemInit dev idx).handles) regs a κ) := by
  have hinit : MapInv dev (PhysMem.init dev) ∧ ∀ a < 2 ^ 32, ∀ κ, (PhysMem.init dev).lookup a κ =
      some (lastTarget (fun idx => (ioMemInit dev idx).handles) [] a κ) := by
    refine ⟨mapInv_init dev, fun a ha κ => ?_⟩
    have hdesc : (PhysMem.init dev).desc (a / targetPageSize) =
      ⟨2 * 8, a / targetPageSize * targetPageSize⟩ := rfl
    have h2 : ioMemInit dev 2 = ioMemInit dev 2 := rfl
    have hlook := descLookup_device (by decide : 2 < ioMemNbEntries) le_rfl h2
      (a / targetPageSize * targetPageSize) (a % targetPageSize) κ
    rw [Nat.mod_add_div', deviceCall, Nat.mod_eq_of_lt ha] at hlook
    rw [PhysMem.lookup_eq _ ha, hdesc]
    exact hlook
  obtain ⟨s, hrun, -, hlookup⟩ := runFrom_history
    (I := fun regs s => MapInv dev s ∧ ∀ a < 2 ^ 32, ∀ κ,
      s.lookup a κ = some (lastTarget (fun idx => (ioMemInit dev idx).handles) regs a κ))
    (fun regs s r hI hP => by
      obtain ⟨s', hs', hinv, hlookup⟩ := Registration.exec_spec hI.1 hP.1 hP.2
      refine ⟨s', hs', hinv, fun a ha κ => ?_⟩
      rw [hlookup a ha κ, lastTarget_append, hI.2 a ha κ]
      exact (apply_ite some _ _ _).symm) hinit h
  exact ⟨s, hrun, hlookup⟩

/-- Devices 6 and 7, with all their handlers. -/
def twoDevices (m : ℕ) : Option (Access → Bool) :=
  if m = 6 ∨ m = 7 then some fun _ => true else none

/-- RAM, a device on part of a page, and a second one behind it in the same page. -/
def sharedPage : List Registration :=
  [⟨0, 0x800, .ram 0, 0⟩, ⟨0x1000, 0x100, .io 6, 0⟩, ⟨0x1100, 0x100, .io 7, 0⟩]

/-- The map of RAM and two devices that share a page. -/
theorem physLookup_sharedPage :
    StepsMeet Registration.exec (fun s r => r.Possible twoDevices ∧ r.Good s)
      (PhysMem.init twoDevices) sharedPage ∧
    ∃ s, runFrom Registration.exec (PhysMem.init twoDevices) sharedPage = some s ∧
      ∀ a < 2 ^ 32, ∀ κ, s.lookup a κ =
        some (lastTarget (fun idx => (ioMemInit twoDevices idx).handles) sharedPage a κ) := by
  have h : StepsMeet Registration.exec (fun s r => r.Possible twoDevices ∧ r.Good s)
      (PhysMem.init twoDevices) sharedPage := by decide +kernel
  exact ⟨h, physLookup_lastTarget twoDevices sharedPage h⟩

/-- A device, and a second one over it. -/
def takenOver : List Registration := [⟨0, 0x400, .io 6, 0⟩, ⟨0, 0x400, .io 7, 0x400⟩]

/-- The second device is registered with `region_offset` 0x400, and its handlers get the addresses
    of the first. -/
theorem physLookup_takenOver :
    (∀ r ∈ takenOver, r.Possible twoDevices) ∧
    ((runFrom Registration.exec (PhysMem.init twoDevices) takenOver).bind fun s =>
      s.lookup 0 ⟨false, 2⟩) = some (.io 7 0) ∧
    lastTarget (fun idx => (ioMemInit twoDevices idx).handles) takenOver 0 ⟨false, 2⟩ =
      .io 7 0x400 := by
  refine ⟨?_, ?_, ?_⟩ <;> decide +kernel

end Qemu.Exec
