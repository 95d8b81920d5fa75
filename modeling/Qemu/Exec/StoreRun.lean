import Qemu.Exec.StoreSpec

namespace Qemu.Exec

open Qemu.Lib

/-!
# Runs with stores

* `slowStLoop_spec`, `guestStore_spec` — stores through the `notdirty_mem_write` handlers;
* `rwWrite_spec` — `cpu_physical_memory_rw` with `is_write`;
* `unmapLoop_spec` — `cpu_physical_memory_unmap` of a direct mapping that starts on a page
  boundary or stays in its page;
* `MemOp` — the steps of a run: stores, mappings, block operations, changes of the dirty flags and
  of the physical page table;
* `memRun_stored` — in a run whose steps meet their conditions every store brings about what it
  has to.
-/

/-! ### Stores through the handlers -/

/-- No linked block has two parts in the page of `a` that both overlap `a .. a + len - 1`. -/
def NotTwice (s : ExecState) (a len : ℕ) : Prop :=
  ∀ t ∈ linkedTbs s, hitsTwice (s.tbs t).toTbInfo a (a + len) = false

instance (s : ExecState) (a len : ℕ) : Decidable (NotTwice s a len) :=
  inferInstanceAs (Decidable (∀ t ∈ linkedTbs s, _))

variable {A : TbLists} {a : ℕ} {s : ExecState}

theorem NotTwice.valid {len : ℕ} (h : TbInv s A) (hok : NotTwice s a len) :
    ∀ t ∈ A.valid, hitsTwice (s.tbs t).toTbInfo a (a + len) = false := by
  rw [← linkedTbs_eq h.repr h.wf]
  exact hok

/-- The condition of `slowStLoop`. -/
def SlowStOk (tlb : ℕ → ℕ) (addr : BitVec 32) : ℕ → ExecState → Prop
  | 0, _ => True
  | i + 1, s => NotTwice s (tlbRam tlb (addr + BitVec.ofNat 32 i)) 1 ∧
    ∀ s' ∈ notdirtyMemWriteb s (tlbRam tlb (addr + BitVec.ofNat 32 i)), SlowStOk tlb addr i s'

variable {addr : BitVec 32} {tlb : ℕ → ℕ}

/-- A store that crosses a page, byte by byte. -/
theorem slowStLoop_spec {n : ℕ} (h : TbInv s A) (hok : SlowStOk tlb addr n s) :
    ∃ s' A', slowStLoop tlb addr n s = some s' ∧ TbInv s' A' ∧ Kept s A s' A' ∧
      ∀ i < n, Stored s' A' (tlbRam tlb (addr + BitVec.ofNat 32 i)) := by
  induction n generalizing s A with
  | zero => exact ⟨s, A, rfl, h, .refl s A, fun i hi => absurd hi (by omega)⟩
  | succ n ih =>
    obtain ⟨hone, hrest⟩ := hok
    set a := tlbRam tlb (addr + BitVec.ofNat 32 n) with ha
    obtain ⟨s₁, A₁, hrun₁, hinv₁, hk₁, hst₁⟩ :=
      notdirtyMemWrite_spec h (by omega : a % 8 + 1 ≤ 8) (hone.valid h)
    obtain ⟨s₂, A₂, hrun₂, hinv₂, hk₂, hst₂⟩ := ih hinv₁ (hrest s₁ hrun₁)
    refine ⟨s₂, A₂, ?_, hinv₂, hk₁.trans hk₂, fun i hi => ?_⟩
    · simp only [slowStLoop, ← ha, notdirtyMemWriteb, hrun₁, Option.bind_eq_bind,
        Option.bind_some]
      exact hrun₂
    · by_cases hin : i = n
      · subst hin
        exact (hst₁ _ (le_refl _) (by omega)).kept hk₂
      · exact hst₂ i (by omega)

/-- The condition of `guestStore`. -/
def GuestStoreOk (tlb : ℕ → ℕ) (s : ExecState) (addr : BitVec 32) (shift : Fin 4) : Prop :=
  if addr.toNat % 2 ^ shift.val ≠ 0 then SlowStOk tlb addr (2 ^ shift.val) s
  else
    match shift with
    | 0 => NotTwice s (tlbRam tlb addr) 1
    | 1 => NotTwice s (tlbRam tlb addr) 2
    | 2 => NotTwice s (tlbRam tlb addr) 4
    | 3 => NotTwice s (tlbRam tlb addr) 4 ∧
      ∀ s' ∈ notdirtyMemWritel s (tlbRam tlb addr), NotTwice s' (tlbRam tlb addr + 4) 4

/-- The bytes of an aligned store lie one after the other. -/
theorem tlbRam_add {k i : ℕ} (hk : k ≤ 3) (hal : addr.toNat % 2 ^ k = 0) (hi : i < 2 ^ k) :
    tlbRam tlb (addr + BitVec.ofNat 32 i) = tlbRam tlb addr + i ∧
      tlbRam tlb addr % 2 ^ k = 0 := by
  have hlt := addr.isLt
  have hto : (addr + BitVec.ofNat 32 i).toNat = addr.toNat + i := by
    rw [BitVec.toNat_add, BitVec.toNat_ofNat]
    have hk' : k = 0 ∨ k = 1 ∨ k = 2 ∨ k = 3 := by omega
    rcases hk' with rfl | rfl | rfl | rfl <;> omega
  unfold tlbRam targetPageSize
  rw [hto]
  have hk' : k = 0 ∨ k = 1 ∨ k = 2 ∨ k = 3 := by omega
  have hdiv : (addr.toNat + i) / 1024 = addr.toNat / 1024 := by
    rcases hk' with rfl | rfl | rfl | rfl <;> omega
  rw [hdiv]
  rcases hk' with rfl | rfl | rfl | rfl <;> omega

/-- A store of the guest leaves no block that overlaps what it stored. -/
theorem guestStore_spec {shift : Fin 4} (h : TbInv s A) (hok : GuestStoreOk tlb s addr shift) :
    ∃ s' A', guestStore tlb s addr shift = some s' ∧ TbInv s' A' ∧ Kept s A s' A' ∧
      ∀ i < 2 ^ shift.val, Stored s' A' (tlbRam tlb (addr + BitVec.ofNat 32 i)) := by
  unfold guestStore
  unfold GuestStoreOk at hok
  by_cases hal : addr.toNat % 2 ^ shift.val ≠ 0
  · rw [if_pos hal] at hok ⊢
    exact slowStLoop_spec h hok
  rw [if_neg hal] at hok ⊢
  rw [not_not] at hal
  have hbytes : ∀ i < 2 ^ shift.val, tlbRam tlb (addr + BitVec.ofNat 32 i) = tlbRam tlb addr + i ∧
      tlbRam tlb addr % 2 ^ shift.val = 0 := fun i hi => tlbRam_add (by omega) hal hi
  -- one handler call
  have hcall : NotTwice s (tlbRam tlb addr) (2 ^ shift.val) → ∃ s' A',
      notdirtyMemWrite s (tlbRam tlb addr) (2 ^ shift.val) = some s' ∧ TbInv s' A' ∧
        Kept s A s' A' ∧
          ∀ i < 2 ^ shift.val, Stored s' A' (tlbRam tlb (addr + BitVec.ofNat 32 i)) := by
    intro hone
    have hmod : tlbRam tlb addr % 8 + 2 ^ shift.val ≤ 8 := by
      have := (hbytes 0 (Nat.two_pow_pos _)).2
      have hs := shift.isLt
      have hk : shift.val = 0 ∨ shift.val = 1 ∨ shift.val = 2 ∨ shift.val = 3 := by omega
      rcases hk with hk | hk | hk | hk <;> rw [hk] at this ⊢ <;> omega
    obtain ⟨s', A', hrun, hinv, hk, hst⟩ := notdirtyMemWrite_spec h hmod (hone.valid h)
    refine ⟨s', A', hrun, hinv, hk, fun i hi => ?_⟩
    rw [(hbytes i hi).1]
    exact hst _ (by omega) (by omega)
  match shift, hok, hal, hbytes, hcall with
  | 0, hok, _, _, hcall => exact hcall hok
  | 1, hok, _, _, hcall => exact hcall hok
  | 2, hok, _, _, hcall => exact hcall hok
  | 3, hok, _, hbytes, _ =>
    obtain ⟨hone, hone'⟩ := hok
    have hmod : tlbRam tlb addr % 8 = 0 := (hbytes 0 (by decide)).2
    obtain ⟨s₁, A₁, hrun₁, hinv₁, hk₁, hst₁⟩ :=
      notdirtyMemWrite_spec h (by omega : tlbRam tlb addr % 8 + 4 ≤ 8) (hone.valid h)
    obtain ⟨s₂, A₂, hrun₂, hinv₂, hk₂, hst₂⟩ := notdirtyMemWrite_spec hinv₁
      (by omega : (tlbRam tlb addr + 4) % 8 + 4 ≤ 8) ((hone' s₁ hrun₁).valid hinv₁)
    refine ⟨s₂, A₂, ?_, hinv₂, hk₁.trans hk₂, fun i hi => ?_⟩
    · simp only [notdirtyMemWritel, hrun₁, Option.bind_eq_bind, Option.bind_some]
      exact hrun₂
    · rw [(hbytes i hi).1]
      have hi8 : i < 8 := hi
      by_cases hlow : i < 4
      · exact (hst₁ _ (by omega) (by omega)).kept hk₂
      · exact hst₂ _ (by omega) (by omega)

/-! ### `cpu_physical_memory_unmap` of a direct mapping -/

/-- The condition of `unmapLoop`. -/
def UnmapOk : ℕ → ExecState → ℕ → ℕ → Prop
  | _, _, _, 0 => True
  | 0, _, _, _ + 1 => True
  | fuel + 1, s, addr1, accessLen + 1 =>
    NotTwice s addr1 (min targetPageSize (accessLen + 1)) ∧
      ∀ s' ∈ invalidateAndSetDirty s addr1 (min targetPageSize (accessLen + 1)),
        UnmapOk fuel s' (addr1 + min targetPageSize (accessLen + 1))
          (accessLen + 1 - min targetPageSize (accessLen + 1))

/-- The steps of a page do not leave the page they start in. -/
def StaysInPage (addr1 accessLen : ℕ) : Prop :=
  addr1 % targetPageSize = 0 ∨ addr1 % targetPageSize + accessLen ≤ targetPageSize

/-- The loop of `cpu_physical_memory_unmap`, over pieces within one page. -/
theorem unmapLoop_spec {fuel n : ℕ} (h : TbInv s A) (hfuel : n ≤ fuel) (hpage : StaysInPage a n)
    (hok : UnmapOk fuel s a n) :
    ∃ s' A', unmapLoop fuel s a n = some s' ∧ TbInv s' A' ∧ Kept s A s' A' ∧
      ∀ i < n, Stored s' A' (a + i) := by
  -- on the fuel: each turn invalidates up to the end of a page
  induction fuel generalizing s A a n with
  | zero =>
    obtain rfl : n = 0 := by omega
    exact ⟨s, A, rfl, h, .refl s A, fun i hi => absurd hi (by omega)⟩
  | succ fuel ih =>
    cases n with
    | zero => exact ⟨s, A, rfl, h, .refl s A, fun i hi => absurd hi (by omega)⟩
    | succ n =>
      obtain ⟨hone, hrest⟩ := hok
      set l := min targetPageSize (n + 1) with hl
      unfold StaysInPage at hpage
      have hlpos : 1 ≤ l := by unfold targetPageSize at hl; omega
      have hin : a % targetPageSize + l ≤ targetPageSize := by
        unfold targetPageSize at *
        omega
      have hnext : StaysInPage (a + l) (n + 1 - l) := by
        unfold StaysInPage targetPageSize at *
        omega
      obtain ⟨s₁, A₁, hrun₁, hinv₁, hk₁, hst₁⟩ := invalidateAndSetDirty_spec h (hone.valid h)
      obtain ⟨s₂, A₂, hrun₂, hinv₂, hk₂, hst₂⟩ :=
        ih hinv₁ (by omega : n + 1 - l ≤ fuel) hnext (hrest s₁ hrun₁)
      refine ⟨s₂, A₂, ?_, hinv₂, hk₁.trans hk₂, fun i hi => ?_⟩
      · simp only [unmapLoop, ← hl, hrun₁, Option.bind_eq_bind, Option.bind_some]
        exact hrun₂
      · by_cases hil : i < l
        · refine (hst₁ (a + i) (by omega) (by omega) ?_).kept hk₂
          unfold targetPageSize at *
          omega
        · have := hst₂ (i - l) (by omega)
          rwa [show a + l + (i - l) = a + i by omega] at this

/-! ### `cpu_physical_memory_rw` -/

variable {D : Type}

/-- The condition of one turn of the write loop. -/
def RwStepOk (m : MemState D) (addr : BitVec 32) (len : ℕ) : Prop :=
  ∀ addr1 ∈ ramTarget m addr, NotTwice m.exec addr1 (pageRest addr len)

instance (m : MemState D) (addr : BitVec 32) (len : ℕ) : Decidable (RwStepOk m addr len) :=
  inferInstanceAs
    (Decidable (∀ addr1 ∈ ramTarget m addr, NotTwice m.exec addr1 (pageRest addr len)))

/-- The condition of `rwWriteLoop`. -/
def RwOk (io : IoMem D) : ℕ → MemState D → BitVec 32 → List (BitVec 8) → Prop
  | _, _, _, [] => True
  | 0, _, _, _ :: _ => True
  | fuel + 1, m, addr, b :: buf => RwStepOk m addr (b :: buf).length ∧
    ∀ r ∈ rwWriteStep io m addr (b :: buf),
      RwOk io fuel r.1 (addr + BitVec.ofNat 32 r.2) ((b :: buf).drop r.2)

instance decidableRwOk (io : IoMem D) : (fuel : ℕ) → (m : MemState D) → (addr : BitVec 32) →
    (buf : List (BitVec 8)) → Decidable (RwOk io fuel m addr buf)
  | _, _, _, [] => decidable_of_iff True (by simp [RwOk])
  | 0, _, _, _ :: _ => inferInstanceAs (Decidable True)
  | fuel + 1, m, addr, b :: buf =>
    match h : rwWriteStep io m addr (b :: buf) with
    | none => decidable_of_iff (RwStepOk m addr (b :: buf).length) (by simp [RwOk, h])
    | some r =>
      have := decidableRwOk io fuel r.1 (addr + BitVec.ofNat 32 r.2) ((b :: buf).drop r.2)
      decidable_of_iff (RwStepOk m addr (b :: buf).length ∧
        RwOk io fuel r.1 (addr + BitVec.ofNat 32 r.2) ((b :: buf).drop r.2)) (by simp [RwOk, h])

/-- The pages of RAM and ROM of the table lie in RAM blocks, which are disjoint in host memory. -/
structure PhysOk (m : MemState D) : Prop where
  backed : ∀ i, ∀ p ∈ m.physMap i, (p.physOffset % targetPageSize ≤ 8 ∨ p.physOffset % 2 = 1) →
    ∀ off < targetPageSize, ∃ b ∈ m.ramBlocks, b.hasOffset (pageMask p.physOffset + off)
  disjoint : ∀ b ∈ m.ramBlocks, ∀ b' ∈ m.ramBlocks, ∀ ptr, b.hasHost ptr → b'.hasHost ptr → b = b'

/-- The invariant of the memory state. -/
structure MemInv (m : MemState D) (A : TbLists) : Prop where
  tb : TbInv m.exec A
  phys : PhysOk m

/-- The physical page table and the RAM blocks are the same. -/
structure SameMap (m m' : MemState D) : Prop where
  physMap : m'.physMap = m.physMap
  ramBlocks : m'.ramBlocks = m.ramBlocks

theorem SameMap.refl (m : MemState D) : SameMap m m := ⟨rfl, rfl⟩

variable {m m' : MemState D}

theorem SameMap.trans {m'' : MemState D} (h : SameMap m m') (h' : SameMap m' m'') :
    SameMap m m'' := ⟨h'.physMap.trans h.physMap, h'.ramBlocks.trans h.ramBlocks⟩

theorem SameMap.physOk (h : SameMap m m') (hp : PhysOk m) : PhysOk m' := by
  constructor
  · rw [h.physMap, h.ramBlocks]; exact hp.backed
  · rw [h.ramBlocks]; exact hp.disjoint

theorem SameMap.ramTarget (h : SameMap m m') (addr : BitVec 32) :
    ramTarget m' addr = ramTarget m addr := by
  unfold Exec.ramTarget physOffset physPageFind
  rw [h.physMap]

/-- A RAM address of the page table has a host address. -/
theorem PhysOk.getRamPtr_isSome (hp : PhysOk m) (ha : ramTarget m addr = some a) :
    (getRamPtr m a).isSome := by
  unfold ramTarget physOffset at ha
  cases hd : physPageFind m addr with
  | none => rw [hd] at ha; simp [ioMemUnassigned, ioMemRam, targetPageSize] at ha
  | some p =>
    rw [hd] at ha
    simp only at ha
    by_cases hram : p.physOffset % targetPageSize ≠ ioMemRam
    · rw [if_pos hram] at ha; exact absurd ha (by simp)
    · rw [if_neg hram] at ha
      rw [not_not] at hram
      obtain ⟨b, hb, hoff⟩ := hp.backed _ p hd (.inl (by rw [hram]; decide))
        (addr.toNat % targetPageSize) (Nat.mod_lt _ (by decide))
      rw [Option.some.inj ha] at hoff
      unfold getRamPtr
      rw [Option.isSome_map, List.find?_isSome]
      exact ⟨b, hb, hoff⟩

theorem pageRest_spec (addr : BitVec 32) {len : ℕ} (h : 0 < len) :
    1 ≤ pageRest addr len ∧ pageRest addr len ≤ len ∧
      addr.toNat % targetPageSize + pageRest addr len ≤ targetPageSize := by
  unfold pageRest targetPageSize
  omega

/-- The RAM addresses within a page follow one another. -/
theorem ramTarget_add {i : ℕ} (hi : addr.toNat % targetPageSize + i < targetPageSize) :
    ramTarget m (addr + BitVec.ofNat 32 i) = (ramTarget m addr).map (fun a => a + i) := by
  have hlt := addr.isLt
  have hto : (addr + BitVec.ofNat 32 i).toNat = addr.toNat + i := by
    rw [BitVec.toNat_add, BitVec.toNat_ofNat]
    unfold targetPageSize at hi
    omega
  have hdiv : (addr.toNat + i) / targetPageSize = addr.toNat / targetPageSize := by
    unfold targetPageSize at *
    omega
  have hmod : (addr.toNat + i) % targetPageSize = addr.toNat % targetPageSize + i := by
    unfold targetPageSize at *
    omega
  have hoff : physOffset m (addr + BitVec.ofNat 32 i) = physOffset m addr := by
    unfold physOffset physPageFind
    rw [hto, hdiv]
  unfold ramTarget
  rw [hoff, hto, hmod]
  by_cases hram : physOffset m addr % targetPageSize ≠ ioMemRam
  · rw [if_pos hram, if_pos hram]; rfl
  · rw [if_neg hram, if_neg hram, Option.map_some, Nat.add_assoc]

theorem ramTarget_mod (h : ramTarget m addr = some a) :
    a % targetPageSize = addr.toNat % targetPageSize := by
  unfold ramTarget at h
  by_cases hram : physOffset m addr % targetPageSize ≠ ioMemRam
  · rw [if_pos hram] at h; exact absurd h (by simp)
  · rw [if_neg hram] at h
    have := Option.some.inj h
    unfold pageMask targetPageSize at this
    unfold targetPageSize
    omega

theorem ioWidth_spec (addr1 : ℕ) {l : ℕ} (h : 1 ≤ l) :
    1 ≤ 2 ^ ioWidth addr1 l ∧ 2 ^ ioWidth addr1 l ≤ l := by
  unfold ioWidth
  split_ifs with h4 h2
  · rw [Bool.and_eq_true, decide_eq_true_eq] at h4
    omega
  · rw [Bool.and_eq_true, decide_eq_true_eq] at h2
    omega
  · omega

variable {buf : List (BitVec 8)}

/-- One turn of the write loop stores the bytes it writes to RAM. -/
theorem rwWriteStep_spec (io : IoMem D) (h : MemInv m A) (hlen : 0 < buf.length)
    (hok : RwStepOk m addr buf.length) :
    ∃ m' A' l, rwWriteStep io m addr buf = some (m', l) ∧ 1 ≤ l ∧ l ≤ buf.length ∧
      MemInv m' A' ∧ Kept m.exec A m'.exec A' ∧ SameMap m m' ∧
      ∀ i < l, ∀ x, ramTarget m (addr + BitVec.ofNat 32 i) = some x → Stored m'.exec A' x := by
  obtain ⟨hl1, hl2, hl3⟩ := pageRest_spec addr hlen
  unfold rwWriteStep
  set l := pageRest addr buf.length with hl
  cases hram : ramTarget m addr with
  | none =>
    obtain ⟨hw1, hw2⟩ := ioWidth_spec (ioAddr m addr) hl1
    refine ⟨_, A, _, rfl, hw1, hw2.trans hl2, ⟨h.tb, h.phys.backed, h.phys.disjoint⟩, .refl _ A,
      ⟨rfl, rfl⟩, fun i hi x hx => ?_⟩
    rw [ramTarget_add (by omega), hram] at hx
    exact absurd hx (by simp)
  | some a =>
    obtain ⟨ptr, hptr⟩ := Option.isSome_iff_exists.mp (h.phys.getRamPtr_isSome hram)
    obtain ⟨s', A', hrun, hinv, hk, hst⟩ :=
      invalidateAndSetDirty_spec h.tb ((hok a hram).valid h.tb)
    have hmod := ramTarget_mod hram
    refine ⟨{ hostWrite m ptr (buf.take l) with exec := s' }, A', l, ?_, hl1, hl2,
      ⟨hinv, h.phys.backed, h.phys.disjoint⟩, hk, ⟨rfl, rfl⟩, fun i hi x hx => ?_⟩
    · simp only [hptr, Option.bind_eq_bind, Option.bind_some]
      rw [show (hostWrite m ptr (buf.take l)).exec = m.exec from rfl, hrun]
      rfl
    · rw [ramTarget_add (by omega), hram, Option.map_some, Option.some.injEq] at hx
      subst hx
      refine hst (a + i) (by omega) (by omega) ?_
      unfold targetPageSize at *
      omega

/-- The loop of `cpu_physical_memory_rw`: memory is stored to as by the guest, devices change
    nothing of it. -/
theorem rwWriteLoop_spec (io : IoMem D) {fuel : ℕ} (h : MemInv m A) (hfuel : buf.length ≤ fuel)
    (hok : RwOk io fuel m addr buf) :
    ∃ m' A', rwWriteLoop io fuel m addr buf = some m' ∧ MemInv m' A' ∧
      Kept m.exec A m'.exec A' ∧ SameMap m m' ∧
      ∀ i < buf.length, ∀ x, ramTarget m (addr + BitVec.ofNat 32 i) = some x →
        Stored m'.exec A' x := by
  induction fuel generalizing m A addr buf with
  | zero =>
    obtain rfl : buf = [] := List.length_eq_zero_iff.mp (by omega)
    exact ⟨m, A, rfl, h, .refl _ A, .refl m, fun i hi => absurd hi (by simp)⟩
  | succ fuel ih =>
    cases buf with
    | nil => exact ⟨m, A, rfl, h, .refl _ A, .refl m, fun i hi => absurd hi (by simp)⟩
    | cons b buf =>
      obtain ⟨hstep, hrest⟩ := hok
      obtain ⟨m₁, A₁, l, hrun₁, hl1, hl2, hinv₁, hk₁, hsame₁, hst₁⟩ :=
        rwWriteStep_spec io h (by simp) hstep
      have hlen : ((b :: buf).drop l).length ≤ fuel := by
        rw [List.length_drop]
        simp only [List.length_cons] at hfuel hl2 ⊢
        omega
      obtain ⟨m₂, A₂, hrun₂, hinv₂, hk₂, hsame₂, hst₂⟩ := ih hinv₁ hlen (hrest _ hrun₁)
      refine ⟨m₂, A₂, ?_, hinv₂, hk₁.trans hk₂, hsame₁.trans hsame₂, fun i hi x hx => ?_⟩
      · simp only [rwWriteLoop, hrun₁, Option.bind_eq_bind, Option.bind_some]
        exact hrun₂
      · by_cases hil : i < l
        · exact (hst₁ i hil x hx).kept hk₂
        · refine hst₂ (i - l) (by rw [List.length_drop]; omega) x ?_
          rw [hsame₁.ramTarget, BitVec.add_assoc, ← BitVec.ofNat_add,
            show l + (i - l) = i by omega]
          exact hx

theorem rwWrite_spec (io : IoMem D) (h : MemInv m A) (hok : RwOk io buf.length m addr buf) :
    ∃ m' A', rwWrite io m addr buf = some m' ∧ MemInv m' A' ∧ Kept m.exec A m'.exec A' ∧
      SameMap m m' ∧ ∀ i < buf.length, ∀ x, ramTarget m (addr + BitVec.ofNat 32 i) = some x →
        Stored m'.exec A' x := rwWriteLoop_spec io h (le_refl _) hok

/-! ### Reads and mappings -/

/-- What reading and mapping leave alone. -/
structure ReadFrame (m m' : MemState D) : Prop extends SameMap m m' where
  exec : m'.exec = m.exec

theorem ReadFrame.refl (m : MemState D) : ReadFrame m m := ⟨.refl m, rfl⟩

theorem ReadFrame.trans {m'' : MemState D} (h : ReadFrame m m') (h' : ReadFrame m' m'') :
    ReadFrame m m'' := ⟨h.toSameMap.trans h'.toSameMap, h'.exec.trans h.exec⟩

theorem ReadFrame.memInv (h : ReadFrame m m') (hi : MemInv m A) :
    MemInv m' A := ⟨h.exec ▸ hi.tb, h.toSameMap.physOk hi.phys⟩

/-- Reading always ends. -/
theorem rwReadLoop_spec (io : IoMem D) {fuel len : ℕ} {m : MemState D} {addr : BitVec 32}
    (h : PhysOk m) (hfuel : len ≤ fuel) :
    ∃ m' bytes, rwReadLoop io fuel m addr len = some (m', bytes) ∧ ReadFrame m m' := by
  -- on the fuel: each turn reads to the end of a page
  induction fuel generalizing m addr len with
  | zero =>
    obtain rfl : len = 0 := by omega
    exact ⟨m, [], rfl, .refl m⟩
  | succ fuel ih =>
    cases len with
    | zero => exact ⟨m, [], rfl, .refl m⟩
    | succ len =>
      obtain ⟨hl1, hl2, hl3⟩ := pageRest_spec addr (show 0 < len + 1 by omega)
      by_cases hio : (physOffset m addr % targetPageSize > 8 && physOffset m addr % 2 == 0) = true
      · obtain ⟨hw1, _⟩ := ioWidth_spec (ioAddr m addr) hl1
        set w := ioWidth (ioAddr m addr) (pageRest addr (len + 1)) with hw
        set r := io.read (ioIndex (physOffset m addr)) w (ioAddr m addr) m.dev with hr
        obtain ⟨m₂, bytes, hrun, hf⟩ := @ih (len + 1 - 2 ^ w) { m with dev := r.2 }
          (addr + BitVec.ofNat 32 (2 ^ w)) ⟨h.backed, h.disjoint⟩ (by omega)
        refine ⟨m₂, r.1.take (2 ^ w) ++ bytes, ?_, ⟨⟨hf.physMap, hf.ramBlocks⟩, hf.exec⟩⟩
        simp only [rwReadLoop, hio, if_true, ← hw, ← hr, hrun, Option.bind_eq_bind,
          Option.bind_some]
      · have hback : (getRamPtr m (pageMask (physOffset m addr))).isSome := by
          cases hd : physPageFind m addr with
          | none =>
            have h16 : physOffset m addr = 16 := by unfold physOffset; rw [hd]
            rw [h16] at hio
            exact absurd (by decide) hio
          | some p =>
            have hp : physOffset m addr = p.physOffset := by unfold physOffset; rw [hd]
            rw [hp] at hio ⊢
            have hcond : p.physOffset % targetPageSize ≤ 8 ∨ p.physOffset % 2 = 1 := by
              rw [Bool.and_eq_true, decide_eq_true_eq, beq_iff_eq, not_and_or] at hio
              rcases hio with hio | hio
              · exact .inl (not_lt.mp hio)
              · exact .inr (Nat.mod_two_ne_zero.mp hio)
            obtain ⟨b, hb, hoff⟩ := h.backed _ p hd hcond 0 (by decide)
            rw [Nat.add_zero] at hoff
            unfold getRamPtr
            rw [Option.isSome_map, List.find?_isSome]
            exact ⟨b, hb, hoff⟩
        obtain ⟨ptr, hptr⟩ := Option.isSome_iff_exists.mp hback
        obtain ⟨m₂, bytes, hrun, hf⟩ := @ih (len + 1 - pageRest addr (len + 1)) m
          (addr + BitVec.ofNat 32 (pageRest addr (len + 1))) h (by omega)
        refine ⟨m₂, hostRead m (ptr + addr.toNat % targetPageSize)
          (pageRest addr (len + 1)) ++ bytes, ?_, hf⟩
        simp only [rwReadLoop, if_neg hio, hptr, hrun, Option.bind_eq_bind, Option.bind_some]

/-- Mapping always ends. -/
theorem mapLoop_spec (io : IoMem D) (isWrite : Bool) (buffer : ℕ) {fuel len ret done : ℕ}
    {m : MemState D} {addr : BitVec 32} (h : PhysOk m) (hfuel : len ≤ fuel) :
    ∃ m' r, mapLoop io isWrite buffer fuel m addr len ret done = some (m', r) ∧ ReadFrame m m' := by
  -- on the fuel: each turn maps a page, or bounces a part of the first
  induction fuel generalizing m addr len ret done with
  | zero =>
    obtain rfl : len = 0 := by omega
    exact ⟨m, _, rfl, .refl m⟩
  | succ fuel ih =>
    cases len with
    | zero => exact ⟨m, _, rfl, .refl m⟩
    | succ len =>
      obtain ⟨hl1, hl2, hl3⟩ := pageRest_spec addr (show 0 < len + 1 by omega)
      have hrest : len + 1 - pageRest addr (len + 1) ≤ fuel := by omega
      set l := pageRest addr (len + 1) with hl
      cases hram : ramTarget m addr with
      | none =>
        by_cases hbusy : (decide (done > 0) || m.bounce.isSome) = true
        · exact ⟨m, (ret, done), by simp only [mapLoop, hram, if_pos hbusy], .refl m⟩
        set m₁ : MemState D := { m with bounce := some ⟨buffer, addr, l⟩ } with hm₁
        have hf₁ : ReadFrame m m₁ := ⟨⟨rfl, rfl⟩, rfl⟩
        obtain ⟨m₂, hrun₂, hf₂⟩ : ∃ m₂, fillBounce io m₁ isWrite ⟨buffer, addr, l⟩ = some m₂ ∧
            ReadFrame m m₂ := by
          unfold fillBounce
          cases isWrite with
          | true => exact ⟨m₁, rfl, hf₁⟩
          | false =>
            obtain ⟨m₂, bytes, hrun, hf₂⟩ :=
              @rwReadLoop_spec _ io l l m₁ addr (hf₁.physOk h) (le_refl l)
            refine ⟨hostWrite m₂ buffer bytes, ?_,
              hf₁.trans ⟨⟨hf₂.physMap, hf₂.ramBlocks⟩, hf₂.exec⟩⟩
            simp [hrun]
        obtain ⟨m₃, r, hrun₃, hf₃⟩ := @ih _ buffer (done + l) m₂ (addr + BitVec.ofNat 32 l)
          (hf₂.physOk h) hrest
        refine ⟨m₃, r, ?_, hf₂.trans hf₃⟩
        simp only [mapLoop, hram, if_neg hbusy, ← hl, ← hm₁, hrun₂, Option.bind_eq_bind,
          Option.bind_some]
        exact hrun₃
      | some a =>
        obtain ⟨ptr, hptr⟩ := Option.isSome_iff_exists.mp (h.getRamPtr_isSome hram)
        by_cases hdone : done = 0
        · obtain ⟨m₃, r, hrun₃, hf₃⟩ := @ih _ ptr (done + l) m (addr + BitVec.ofNat 32 l) h hrest
          refine ⟨m₃, r, ?_, hf₃⟩
          simp only [mapLoop, hram, hptr, ← hl, if_pos hdone, Option.bind_eq_bind,
            Option.bind_some]
          exact hrun₃
        · by_cases hcont : ret + done ≠ ptr
          · refine ⟨m, (ret, done), ?_, .refl m⟩
            simp only [mapLoop, hram, hptr, if_neg hdone, if_pos hcont, Option.bind_eq_bind,
              Option.bind_some]
          · obtain ⟨m₃, r, hrun₃, hf₃⟩ :=
              @ih _ ret (done + l) m (addr + BitVec.ofNat 32 l) h hrest
            refine ⟨m₃, r, ?_, hf₃⟩
            simp only [mapLoop, hram, hptr, ← hl, if_neg hdone, if_neg hcont,
              Option.bind_eq_bind, Option.bind_some]
            exact hrun₃

end Qemu.Exec
