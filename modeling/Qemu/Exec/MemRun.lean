import Qemu.Exec.StoreRun

namespace Qemu.Exec

open Qemu.Lib

/-!
# Runs of the memory functions

* `MemOp` — the calls: stores of every kind, mappings, operations on blocks, changes of dirty
  flags and of the physical page table;
* `MemOp.Stores` — the bytes of RAM a call stores to;
* `MemOp.step_stored` — a call that meets its condition keeps the invariant and leaves every byte
  it stores to properly stored;
* `memRun_stored` — so do all calls of a run.
-/

variable {D : Type}

/-! ### Calls -/

/-- A call of one of the memory functions. -/
inductive MemOp where
  | tb (op : TbOp)
  /-- A guest store that reaches the `notdirty_mem_write` handlers. -/
  | guestStore (tlb : ℕ → ℕ) (addr : BitVec 32) (shift : Fin 4)
  /-- `cpu_physical_memory_rw` with and without `is_write`. -/
  | rwWrite (addr : BitVec 32) (buf : List (BitVec 8))
  | rwRead (addr : BitVec 32) (len : ℕ)
  /-- `cpu_physical_memory_map`. -/
  | map (addr : BitVec 32) (len : ℕ) (isWrite : Bool) (buffer : ℕ)
  /-- The holder of a mapping writes through it. -/
  | hostWrite (ptr : ℕ) (bytes : List (BitVec 8))
  /-- `cpu_physical_memory_unmap`. -/
  | unmap (buffer : ℕ) (isWrite : Bool) (accessLen : ℕ)
  /-- `cpu_physical_memory_set_dirty`. -/
  | setDirty (addr : ℕ)
  /-- `cpu_physical_memory_reset_dirty`. -/
  | resetDirty (start fin : ℕ) (dirtyFlags : BitVec 8)
  /-- `cpu_register_physical_memory`, for the table it leaves. -/
  | setPhysMap (table : ℕ → Option PhysPageDesc)

/-- `cpu_physical_memory_set_dirty`. -/
def physMemorySetDirty (s : ExecState) (addr : ℕ) : ExecState :=
  { s with physRamDirty := Function.update s.physRamDirty (addr / targetPageSize) 0xff#8 }

/-- `cpu_physical_memory_reset_dirty`, for the dirty flags. -/
def physMemoryResetDirty (s : ExecState) (start fin : ℕ) (dirtyFlags : BitVec 8) : ExecState :=
  { s with physRamDirty := fun p =>
      if start / targetPageSize ≤ p ∧ p < (fin + targetPageSize - 1) / targetPageSize then
        s.physRamDirty p &&& ~~~dirtyFlags
      else s.physRamDirty p }

/-- What a call does to the state. -/
def MemOp.exec (io : IoMem D) (m : MemState D) : MemOp → Option (MemState D)
  | .tb op => (op.exec m.exec).map (fun s => { m with exec := s })
  | .guestStore tlb addr shift =>
    (Exec.guestStore tlb m.exec addr shift).map (fun s => { m with exec := s })
  | .rwWrite addr buf => Exec.rwWrite io m addr buf
  | .rwRead addr len => (rwReadLoop io len m addr len).map Prod.fst
  | .map addr len isWrite buffer => (physMemoryMap io m addr len isWrite buffer).map Prod.fst
  | .hostWrite ptr bytes => some (Exec.hostWrite m ptr bytes)
  | .unmap buffer isWrite accessLen => physMemoryUnmap io m buffer isWrite accessLen
  | .setDirty addr => some { m with exec := physMemorySetDirty m.exec addr }
  | .resetDirty start fin flags =>
    some { m with exec := physMemoryResetDirty m.exec start fin flags }
  | .setPhysMap table => some { m with physMap := table }

/-- The bytes of RAM a call stores to. -/
def MemOp.Stores (m : MemState D) : MemOp → ℕ → Prop
  | .guestStore tlb addr shift, x =>
    ∃ i, i < 2 ^ shift.val ∧ tlbRam tlb (addr + BitVec.ofNat 32 i) = x
  | .rwWrite addr buf, x => ∃ i, i < buf.length ∧ ramTarget m (addr + BitVec.ofNat 32 i) = some x
  | .unmap buffer true accessLen, x =>
    match bounceAt m buffer with
    | some b => ∃ i, i < accessLen ∧ ramTarget m (b.addr + BitVec.ofNat 32 i) = some x
    | none => ∃ i, i < accessLen ∧ ramAddrFromHost m (buffer + i) = some x
  | _, _ => False

/-- A direct mapping that can be unmapped: the access lies in one RAM block, where it starts on a
    page boundary or stays in its page. -/
def UnmapDirectOk (m : MemState D) (buffer accessLen : ℕ) : Prop :=
  ∃ b ∈ m.ramBlocks, b.hasHost buffer ∧ buffer + accessLen ≤ b.host + b.length ∧
    StaysInPage (b.offset + (buffer - b.host)) accessLen ∧
    UnmapOk accessLen m.exec (b.offset + (buffer - b.host)) accessLen

/-- The condition of a call. -/
def MemOp.Ok (io : IoMem D) (m : MemState D) : MemOp → Prop
  | .tb op => op.Ok m.exec (linkedTbs m.exec)
  | .guestStore tlb addr shift => GuestStoreOk tlb m.exec addr shift
  | .rwWrite addr buf => RwOk io buf.length m addr buf
  | .rwRead _ _ => True
  | .map _ _ _ _ => True
  | .hostWrite _ _ => True
  | .unmap _ false _ => True
  | .unmap buffer true accessLen =>
    match bounceAt m buffer with
    | some b => RwOk io accessLen m b.addr (hostRead m b.buffer accessLen)
    | none => UnmapDirectOk m buffer accessLen
  | .setDirty addr => ∀ t ∈ linkedTbs m.exec, ∀ n < 2,
    slotPage (m.exec.tbs t).toTbInfo n ≠ some (addr / targetPageSize)
  | .resetDirty _ _ _ => True
  | .setPhysMap table => PhysOk { m with physMap := table }

/-- A sequence of calls. -/
def memRun (io : IoMem D) : MemState D → List MemOp → Option (MemState D)
  | m, [] => some m
  | m, op :: ops => (op.exec io m).bind (fun m => memRun io m ops)

/-- Every call of the sequence meets its condition in the state it is made in. -/
def MemRunOk (io : IoMem D) : MemState D → List MemOp → Prop
  | _, [] => True
  | m, op :: ops => op.Ok io m ∧ ∀ m' ∈ op.exec io m, MemRunOk io m' ops

/-- A state after startup, with the RAM allocated and the page table set up. -/
structure MemState.Init (m : MemState D) : Prop where
  exec : m.exec.Init
  phys : PhysOk m

/-! ### Steps -/

/-- Changing dirty flags keeps the invariant, if no page with code gets its code flag set. -/
theorem TbInv.setDirty {s : ExecState} {A : TbLists} (h : TbInv s A) (d : ℕ → BitVec 8)
    (hd : ∀ p, A.page p ≠ [] → s.physRamDirty p &&& codeDirtyFlag = 0#8 →
      d p &&& codeDirtyFlag = 0#8) : TbInv { s with physRamDirty := d } A := by
  have hi : SameInfo s { s with physRamDirty := d } := ⟨fun _ => rfl, rfl, rfl, rfl, rfl⟩
  exact h.of_sameInfo hi subset_rfl ⟨h.repr.hash, h.repr.page, h.repr.jmp⟩
    (h.wf.congr hi ⟨rfl, fun _ => rfl⟩)
    ⟨fun p hp => hd p hp (h.mem.clean p hp), h.mem.bitmap⟩

theorem and_not_and_of_clean {d flags : BitVec 8} (h : d &&& codeDirtyFlag = 0#8) :
    (d &&& ~~~flags) &&& codeDirtyFlag = 0#8 := by
  rw [BitVec.and_assoc, BitVec.and_comm (~~~flags), ← BitVec.and_assoc, h, BitVec.zero_and]

/-- The host addresses of an access within a block. -/
theorem ramAddrFromHost_block {m : MemState D} (hp : PhysOk m) {b : RamBlock} {ptr : ℕ}
    (hb : b ∈ m.ramBlocks) (hin : b.hasHost ptr) :
    ramAddrFromHost m ptr = some (b.offset + (ptr - b.host)) := by
  unfold ramAddrFromHost
  have hsome : (m.ramBlocks.find? (fun b => b.hasHost ptr)).isSome :=
    List.find?_isSome.mpr ⟨b, hb, hin⟩
  obtain ⟨b', hb'⟩ := Option.isSome_iff_exists.mp hsome
  have hin' : b'.hasHost ptr = true := by simpa using List.find?_some hb'
  have heq : b' = b := hp.disjoint b' (List.mem_of_find?_eq_some hb') b hb ptr hin' hin
  rw [hb', heq]
  rfl

/-- Unmapping a direct mapping. -/
theorem unmapDirect_spec {m : MemState D} {A : TbLists} {buffer n : ℕ} (h : MemInv m A)
    (hok : UnmapDirectOk m buffer n) :
    ∃ a s' A', ramAddrFromHost m buffer = some a ∧ unmapLoop n m.exec a n = some s' ∧
      TbInv s' A' ∧ ∀ i < n, ∀ x, ramAddrFromHost m (buffer + i) = some x → Stored s' A' x := by
  obtain ⟨b, hb, hin, hend, hpage, hun⟩ := hok
  obtain ⟨s', A', hrun, hinv, _, hst⟩ := unmapLoop_spec h.tb (le_refl n) hpage hun
  refine ⟨_, s', A', ramAddrFromHost_block h.phys hb hin, hrun, hinv, fun i hi x hx => ?_⟩
  unfold RamBlock.hasHost at hin
  rw [Bool.and_eq_true, decide_eq_true_eq, decide_eq_true_eq] at hin
  have hin' : b.hasHost (buffer + i) = true := by
    unfold RamBlock.hasHost
    rw [Bool.and_eq_true, decide_eq_true_eq, decide_eq_true_eq]
    omega
  rw [ramAddrFromHost_block h.phys hb hin', Option.some.injEq] at hx
  have := hst i hi
  rwa [show b.offset + (buffer - b.host) + i = x by omega] at this

theorem hostRead_length (m : MemState D) (ptr l : ℕ) : (hostRead m ptr l).length = l := by
  simp [hostRead]

/-- A call that meets its condition keeps the invariant, and every byte it stores to is properly
    stored. -/
theorem MemOp.step_stored (io : IoMem D) {m : MemState D} {A : TbLists} (h : MemInv m A)
    (op : MemOp) (hok : op.Ok io m) :
    ∃ m' A', op.exec io m = some m' ∧ MemInv m' A' ∧ ∀ x, op.Stores m x → Stored m'.exec A' x := by
  -- stores go through the slow path; a read, a map and the dirty bits store nothing
  cases op with
  | tb op =>
    have hok' : op.Ok m.exec A.valid := by
      rw [← linkedTbs_eq h.tb.repr h.tb.wf]
      exact hok
    obtain ⟨s', A', hstep, hinv⟩ := op.step_inv h.tb hok'
    obtain ⟨r, hr, heq⟩ := Option.map_eq_some_iff.mp hstep
    obtain ⟨rfl, _⟩ := Prod.mk.injEq _ _ _ _ ▸ heq
    exact ⟨{ m with exec := r }, A', by simp [MemOp.exec, hr],
      ⟨hinv, h.phys.backed, h.phys.disjoint⟩, fun x hx => absurd hx (by simp [MemOp.Stores])⟩
  | guestStore tlb addr shift =>
    obtain ⟨s', A', hrun, hinv, _, hst⟩ := guestStore_spec h.tb hok
    refine ⟨{ m with exec := s' }, A', by simp [MemOp.exec, hrun],
      ⟨hinv, h.phys.backed, h.phys.disjoint⟩, ?_⟩
    rintro x ⟨i, hi, rfl⟩
    exact hst i hi
  | rwWrite addr buf =>
    obtain ⟨m', A', hrun, hinv, _, _, hst⟩ := rwWrite_spec io h hok
    refine ⟨m', A', hrun, hinv, ?_⟩
    rintro x ⟨i, hi, hx⟩
    exact hst i hi x hx
  | rwRead addr len =>
    obtain ⟨m', bytes, hrun, hf⟩ :=
      @rwReadLoop_spec _ io len len m addr h.phys (le_refl len)
    exact ⟨m', A, by simp [MemOp.exec, hrun], hf.memInv h,
      fun x hx => absurd hx (by simp [MemOp.Stores])⟩
  | map addr len isWrite buffer =>
    obtain ⟨m', r, hrun, hf⟩ :=
      @mapLoop_spec _ io isWrite buffer len len 0 0 m addr h.phys (le_refl len)
    exact ⟨m', A, by simp [MemOp.exec, physMemoryMap, hrun], hf.memInv h,
      fun x hx => absurd hx (by simp [MemOp.Stores])⟩
  | hostWrite ptr bytes =>
    exact ⟨_, A, rfl, ⟨h.tb, h.phys.backed, h.phys.disjoint⟩,
      fun x hx => absurd hx (by simp [MemOp.Stores])⟩
  | unmap buffer isWrite accessLen =>
    cases isWrite with
    | false =>
      cases hb : bounceAt m buffer with
      | none =>
        exact ⟨m, A, by simp [MemOp.exec, physMemoryUnmap, hb], h,
          fun x hx => absurd hx (by simp [MemOp.Stores])⟩
      | some b =>
        exact ⟨{ m with bounce := none }, A, by simp [MemOp.exec, physMemoryUnmap, hb],
          ⟨h.tb, h.phys.backed, h.phys.disjoint⟩, fun x hx => absurd hx (by simp [MemOp.Stores])⟩
    | true =>
      simp only [MemOp.Ok] at hok
      simp only [MemOp.Stores]
      cases hb : bounceAt m buffer with
      | none =>
        simp only [hb] at hok ⊢
        obtain ⟨a, s', A', ha, hrun, hinv, hst⟩ := unmapDirect_spec h hok
        refine ⟨{ m with exec := s' }, A', by simp [MemOp.exec, physMemoryUnmap, hb, ha, hrun],
          ⟨hinv, h.phys.backed, h.phys.disjoint⟩, ?_⟩
        rintro x ⟨i, hi, hx⟩
        exact hst i hi x hx
      | some b =>
        simp only [hb] at hok ⊢
        set buf := hostRead m b.buffer accessLen with hbuf
        have hlen : buf.length = accessLen := hostRead_length m b.buffer accessLen
        obtain ⟨m', A', hrun, hinv, _, _, hst⟩ := rwWrite_spec io h (by rw [hlen]; exact hok)
        refine ⟨{ m' with bounce := none }, A', ?_,
          ⟨hinv.tb, hinv.phys.backed, hinv.phys.disjoint⟩, ?_⟩
        · simp [MemOp.exec, physMemoryUnmap, hb, ← hbuf, hrun]
        · rintro x ⟨i, hi, hx⟩
          exact hst i (by omega) x hx
  | setDirty addr =>
    refine ⟨_, A, rfl, ⟨h.tb.setDirty _ (fun p hp hc => ?_), h.phys.backed, h.phys.disjoint⟩,
      fun x hx => absurd hx (by simp [MemOp.Stores])⟩
    have hpa : p ≠ addr / targetPageSize := by
      rintro rfl
      obtain ⟨v, hv⟩ := List.exists_mem_of_ne_nil _ hp
      obtain ⟨hvalid, hslot⟩ := (h.tb.wf.memPage _ v).mp hv
      rw [← linkedTbs_eq h.tb.repr h.tb.wf] at hvalid
      exact hok v.tb hvalid v.n (slotPage_lt hslot) hslot
    rw [Function.update_of_ne hpa]
    exact hc
  | resetDirty start fin flags =>
    refine ⟨_, A, rfl, ⟨h.tb.setDirty _ (fun p _ hc => ?_), h.phys.backed, h.phys.disjoint⟩,
      fun x hx => absurd hx (by simp [MemOp.Stores])⟩
    split_ifs
    · exact and_not_and_of_clean hc
    · exact hc
  | setPhysMap table =>
    exact ⟨{ m with physMap := table }, A, rfl, ⟨h.tb, hok⟩,
      fun x hx => absurd hx (by simp [MemOp.Stores])⟩

/-! ### Runs -/

/-- A run from an invariant state whose calls meet their conditions keeps the invariant. -/
theorem memRun_inv (io : IoMem D) {m : MemState D} {A : TbLists} (h : MemInv m A)
    (ops rest : List MemOp) (hok : MemRunOk io m (ops ++ rest)) :
    ∃ m' A', memRun io m ops = some m' ∧ MemInv m' A' ∧ MemRunOk io m' rest := by
  induction ops generalizing m A with
  | nil => exact ⟨m, A, rfl, h, hok⟩
  | cons op ops ih =>
    obtain ⟨hop, hrest⟩ := hok
    obtain ⟨m₁, A₁, hrun₁, hinv₁, _⟩ := op.step_stored io h hop
    obtain ⟨m', A', hrun, hinv, hok'⟩ := ih hinv₁ (hrest m₁ hrun₁)
    exact ⟨m', A', by simp [memRun, hrun₁, hrun], hinv, hok'⟩

/-- After every call of a run that meets its conditions, no block in a page list contains a byte
    the call stored to, and the pages of these bytes have all their dirty flags but the code flag
    set. -/
theorem memRun_stored (io : IoMem D) {m : MemState D} (hm : m.Init) (ops : List MemOp)
    (op : MemOp) (hok : MemRunOk io m (ops ++ [op])) :
    ∃ m₁ m₂ A, memRun io m ops = some m₁ ∧ op.exec io m₁ = some m₂ ∧ TbRepr m₂.exec A ∧
      TbWf m₂.exec A ∧ ∀ x, op.Stores m₁ x →
        (∀ p, ∀ v ∈ A.page p, ¬ (m₂.exec.tbs v.tb).toTbInfo.covers x) ∧
        NonCodeDirty m₂.exec (x / targetPageSize) := by
  obtain ⟨m₁, A₁, hrun₁, hinv₁, hop, _⟩ :=
    memRun_inv io ⟨TbInv.init hm.exec, hm.phys⟩ ops [op] hok
  obtain ⟨m₂, A₂, hrun₂, hinv₂, hst⟩ := op.step_stored io hinv₁ hop
  refine ⟨m₁, m₂, A₂, hrun₁, hrun₂, hinv₂.tb.repr, hinv₂.tb.wf, fun x hx => ⟨?_, ?_⟩⟩
  · intro p v hv
    exact (hst x hx).clear v.tb ((hinv₂.tb.wf.memPage p v).mp hv).1
  · exact (hst x hx).dirty

/-! ### Concrete runs -/

/-- Four pages of RAM at physical address 0, and no devices. -/
def memStart : MemState Unit where
  exec := startState
  hostMem _ := 0
  ramBlocks := [⟨0x100000, 0, 4096⟩]
  physMap i := if i < 4 then some ⟨i * 1024, 0⟩ else none
  bounce := none
  dev := ()

/-- Devices that ignore writes and read as nothing. -/
def noIo : IoMem Unit := ⟨fun _ _ _ _ d => d, fun _ _ _ d => ([], d)⟩

/-- The example starts as the program does. -/
theorem memStart_init : memStart.Init := by
  refine ⟨startState_init, ⟨fun i p hp _ off hoff => ?_, ?_⟩⟩
  · unfold memStart at hp ⊢
    simp only [Option.mem_def] at hp
    split_ifs at hp with hi
    obtain rfl := Option.some.inj hp
    refine ⟨⟨0x100000, 0, 4096⟩, by simp, ?_⟩
    unfold RamBlock.hasOffset pageMask
    unfold targetPageSize at *
    rw [Bool.and_eq_true, decide_eq_true_eq, decide_eq_true_eq]
    simp only
    omega
  · intro b hb b' hb' ptr _ _
    unfold memStart at hb hb'
    simp only [List.mem_singleton] at hb hb'
    rw [hb, hb']

/-- A write of eight bytes across two pages, the second of them with the end of a block. -/
theorem memRun_stored_sample :
    MemRunOk noIo memStart ([.tb (.genCode (crossingBlock 2 1))] ++
      [.rwWrite 1020#32 (List.replicate 8 0x55#8)]) ∧
    ∃ m₁ m₂ A, memRun noIo memStart [.tb (.genCode (crossingBlock 2 1))] = some m₁ ∧
      (MemOp.rwWrite 1020#32 (List.replicate 8 0x55#8)).exec noIo m₁ = some m₂ ∧
      TbRepr m₂.exec A ∧ TbWf m₂.exec A ∧
      ∀ x, (MemOp.rwWrite 1020#32 (List.replicate 8 0x55#8)).Stores m₁ x →
        (∀ p, ∀ v ∈ A.page p, ¬ (m₂.exec.tbs v.tb).toTbInfo.covers x) ∧
        NonCodeDirty m₂.exec (x / targetPageSize) := by
  have hok : MemRunOk noIo memStart ([.tb (.genCode (crossingBlock 2 1))] ++
      [.rwWrite 1020#32 (List.replicate 8 0x55#8)]) := by
    have hrw : ((MemOp.tb (.genCode (crossingBlock 2 1))).exec noIo memStart).all (fun m =>
        decide (RwOk noIo 8 m 1020#32 (List.replicate 8 0x55#8))) = true := by decide +kernel
    refine ⟨trivial, fun m hm => ⟨?_, fun _ _ => trivial⟩⟩
    rw [Option.mem_def] at hm
    rw [hm, Option.all_some, decide_eq_true_eq] at hrw
    exact hrw
  exact ⟨hok, memRun_stored noIo memStart_init _ _ hok⟩

/-- A mapping of 48 bytes from the offset 1000 of page 0, with the end of a block at the start of
    page 1: unmapping it steps from 1000 by up to a page, so it looks for code in page 0 only, and
    the block overwritten stays linked. -/
theorem memRun_unmap_misses_code :
    ((memRun noIo memStart [.tb (.genCode (crossingBlock 2 1))]).bind
      (fun m => physMemoryMap noIo m 1000#32 48 true 0)).map Prod.snd = some (0x100000 + 1000, 48) ∧
    ¬ ∃ m₁ m₂ A, memRun noIo memStart [.tb (.genCode (crossingBlock 2 1)),
        .map 1000#32 48 true 0] = some m₁ ∧
      (MemOp.unmap (0x100000 + 1000) true 48).exec noIo m₁ = some m₂ ∧
      TbRepr m₂.exec A ∧ TbWf m₂.exec A ∧
      ∀ x, (MemOp.unmap (0x100000 + 1000) true 48).Stores m₁ x →
        (∀ p, ∀ v ∈ A.page p, ¬ (m₂.exec.tbs v.tb).toTbInfo.covers x) ∧
        NonCodeDirty m₂.exec (x / targetPageSize) := by
  refine ⟨by decide +kernel, ?_⟩
  rintro ⟨m₁, m₂, A, hrun₁, hrun₂, hr, hw, hst⟩
  have hfrom : (memRun noIo memStart [.tb (.genCode (crossingBlock 2 1)),
      .map 1000#32 48 true 0]).all (fun m => (bounceAt m (0x100000 + 1000)).isNone &&
        ramAddrFromHost m (0x100000 + 1000 + 24) == some 1024) = true := by decide +kernel
  have hafter : ((memRun noIo memStart [.tb (.genCode (crossingBlock 2 1)),
      .map 1000#32 48 true 0]).bind (fun m =>
        (MemOp.unmap (0x100000 + 1000) true 48).exec noIo m)).all (fun m =>
          decide (0 ∈ linkedTbs m.exec) && decide ((m.exec.tbs 0).toTbInfo.covers 1024)) =
            true := by
    decide +kernel
  rw [hrun₁] at hfrom hafter
  rw [Option.bind_some, hrun₂] at hafter
  simp only [Option.all_some, Bool.and_eq_true, decide_eq_true_eq, beq_iff_eq,
    Option.isNone_iff_eq_none] at hfrom hafter
  obtain ⟨hlinked, hcov⟩ := hafter
  rw [linkedTbs_eq hr hw] at hlinked
  have hstores : (MemOp.unmap (0x100000 + 1000) true 48).Stores m₁ 1024 := by
    simp only [MemOp.Stores, hfrom.1]
    exact ⟨24, by decide, hfrom.2⟩
  exact (hst 1024 hstores).1 _ _ (hw.pageWf.mem_page_zero hlinked) hcov

end Qemu.Exec
