import Qemu.Exec.TbLink

namespace Qemu.Exec

open Qemu.Lib

/-!
# Runs of the block cache

The operations on translation blocks as steps, and the invariant over whole runs.

* `TbOp` — one call from outside: generate and link a block, chain a jump, invalidate a block,
  invalidate a range of a page, flush;
* `TbInv` — the invariant: the pointers spell well-formed lists, bitmaps cover the code, pages
  with code are protected, and blocks have the shape `tb_gen_code` gives them;
* `TbOp.step_inv` — every step whose condition `TbOp.Ok` holds succeeds and keeps the invariant;
* `tbRun_wellFormed` — so does every run.
-/

/-! ### Operations -/

/-- A call of one of the block operations. -/
inductive TbOp where
  /-- `tb_gen_code`, for the block found at a program counter. -/
  | genCode (b : CodeBlock)
  /-- `tb_add_jump`. -/
  | addJump (tb n tbNext : ℕ)
  /-- `tb_phys_invalidate`. -/
  | physInvalidate (tb : ℕ)
  /-- `tb_invalidate_phys_page_range`. -/
  | invalidateRange (start fin : ℕ) (isCpuWriteAccess : Bool)
  /-- `tb_flush`. -/
  | flush

/-- What a call does to the state. -/
def TbOp.exec (s : ExecState) : TbOp → Option ExecState
  | .genCode b => (tbGenCode s b).map Prod.fst
  | .addJump tb n tbNext => some (tbAddJump s tb n tbNext)
  | .physInvalidate tb => tbPhysInvalidate s tb noPage
  | .invalidateRange start fin cpu => tbInvalidatePhysPageRange s start fin cpu
  | .flush => some (tbFlush s)

/-- What a call does to the set of valid blocks: those linked and neither invalidated nor
    flushed since. -/
def TbOp.linked (s : ExecState) (V : Finset ℕ) : TbOp → Finset ℕ
  | .genCode _ => if s.hasRoom then insert s.nbTbs V else {0}
  | .addJump _ _ _ => V
  | .physInvalidate tb => V.erase tb
  | .invalidateRange start fin _ =>
    V.filter (fun t => rangeHits (s.tbs t).toTbInfo start fin = false)
  | .flush => ∅

/-- The condition of a call: the blocks it names are valid, and no valid block has two parts in
    the page that both overlap the range. -/
def TbOp.Ok (s : ExecState) (V : Finset ℕ) : TbOp → Prop
  | .genCode _ => True
  | .addJump tb n tbNext => tb ∈ V ∧ tbNext ∈ V ∧ n < 2
  | .physInvalidate tb => tb ∈ V
  | .invalidateRange start fin _ => ∀ t ∈ V, hitsTwice (s.tbs t).toTbInfo start fin = false
  | .flush => True

instance (s : ExecState) (V : Finset ℕ) (op : TbOp) : Decidable (op.Ok s V) :=
  match op with
  | .genCode _ => inferInstanceAs (Decidable True)
  | .addJump tb n tbNext => inferInstanceAs (Decidable (tb ∈ V ∧ tbNext ∈ V ∧ n < 2))
  | .physInvalidate tb => inferInstanceAs (Decidable (tb ∈ V))
  | .invalidateRange start fin _ =>
    inferInstanceAs (Decidable (∀ t ∈ V, hitsTwice (s.tbs t).toTbInfo start fin = false))
  | .flush => inferInstanceAs (Decidable True)

/-- One step on the state and the set of valid blocks. -/
def TbOp.step (c : ExecState × Finset ℕ) (op : TbOp) : Option (ExecState × Finset ℕ) :=
  (op.exec c.1).map (fun s => (s, op.linked c.1 c.2))

/-- A sequence of calls. -/
def tbRun : ExecState × Finset ℕ → List TbOp → Option (ExecState × Finset ℕ)
  | c, [] => some c
  | c, op :: ops => (op.step c).bind (fun c => tbRun c ops)

/-- Every call of the sequence meets its condition in the state it is made in. -/
def RunOk : ExecState × Finset ℕ → List TbOp → Prop
  | _, [] => True
  | c, op :: ops => op.Ok c.1 c.2 ∧ ∀ c' ∈ op.step c, RunOk c' ops

instance decidableRunOk : (c : ExecState × Finset ℕ) → (ops : List TbOp) → Decidable (RunOk c ops)
  | _, [] => inferInstanceAs (Decidable True)
  | c, op :: ops =>
    match h : op.step c with
    | none => decidable_of_iff (op.Ok c.1 c.2) (by simp [RunOk, h])
    | some c' =>
      have := decidableRunOk c' ops
      decidable_of_iff (op.Ok c.1 c.2 ∧ RunOk c' ops) (by simp [RunOk, h])

/-- The state `cpu_exec_init_all` and `page_init` leave; the blocks are uninitialised memory. -/
structure ExecState.Init (s : ExecState) : Prop where
  nbTbs : s.nbTbs = 0
  ptr : s.codeGenPtr = s.codeGenBuffer
  maxBlocks : 0 < s.codeGenMaxBlocks
  maxSize : 0 < s.codeGenBufferMaxSize
  hash : ∀ h, s.tbPhysHash h = none
  l1Map : ∀ i, s.l1Map i = none

/-! ### The invariant -/

/-- The shape of a block: it has code, ends before its second page does, and has a second page
    exactly if it crosses a page boundary. -/
structure TbInfo.Geom (tb : TbInfo) : Prop where
  size_pos : 1 ≤ tb.size
  fits : tb.pc % targetPageSize + tb.size < 2 * targetPageSize
  page0_mod : tb.pageAddr 0 % targetPageSize = 0
  page1 : if tb.pc % targetPageSize + tb.size ≤ targetPageSize then tb.pageAddr 1 = noPage
    else tb.pageAddr 1 % targetPageSize = 0

/-- The invariant of the block cache. -/
structure TbInv (s : ExecState) (A : TbLists) : Prop where
  repr : TbRepr s A
  wf : TbWf s A
  mem : TbMem s A
  geom : ∀ t ∈ A.valid, (s.tbs t).toTbInfo.Geom
  maxBlocks : 0 < s.codeGenMaxBlocks
  maxSize : 0 < s.codeGenBufferMaxSize

variable {s : ExecState}

theorem TbInv.init (h : s.Init) : TbInv s TbLists.empty := by
  obtain ⟨hr, hw, hm⟩ := tbEmpty_spec h.hash (fun p => by simp [firstTb, pageFind, h.l1Map])
  exact ⟨hr, hw, hm, fun t ht => absurd ht (by simp [TbLists.empty]), h.maxBlocks, h.maxSize⟩

variable {A : TbLists}

theorem TbInv.of_sameInfo {s' : ExecState} {A' : TbLists} (h : TbInv s A) (hi : SameInfo s s')
    (hsub : A'.valid ⊆ A.valid) (hr : TbRepr s' A') (hw : TbWf s' A') (hm : TbMem s' A') :
    TbInv s' A' := by
  refine ⟨hr, hw, hm, fun t ht => ?_, ?_, ?_⟩
  · rw [hi.info]; exact h.geom t (hsub ht)
  · rw [hi.maxBlocks]; exact h.maxBlocks
  · rw [hi.maxSize]; exact h.maxSize

theorem TbInv.flush (h : TbInv s A) : TbInv (tbFlush s) TbLists.empty := by
  obtain ⟨hr, hw, hm⟩ := tbFlush_spec s
  exact ⟨hr, hw, hm, fun t ht => absurd ht (by simp [TbLists.empty]), h.maxBlocks, h.maxSize⟩

theorem TbInv.physInvalidate {t : ℕ} (h : TbInv s A) (ht : t ∈ A.valid) :
    ∃ s', tbPhysInvalidate s t noPage = some s' ∧ TbInv s' (A.remove t) := by
  obtain ⟨s', hrun, hr, hw, hi, hs, _⟩ := tbPhysInvalidate_spec h.repr h.wf ht
  exact ⟨s', hrun, h.of_sameInfo hi (fun u hu => (mem_remove_valid.mp hu).2) hr hw
    (h.mem.shrink hi hs (fun _ _ hv => keep_page_sub hv))⟩

/-- `tb_invalidate_phys_page_range` when no block is hit twice. -/
theorem TbInv.invalidateRange {start fin : ℕ} (cpu : Bool) (h : TbInv s A)
    (hone : ∀ t ∈ A.valid, hitsTwice (s.tbs t).toTbInfo start fin = false) :
    ∃ s' K, tbInvalidatePhysPageRange s start fin cpu = some s' ∧ TbInv s' (A.keep K) ∧
      SameInfo s s' ∧ (∀ t ∈ A.valid, K t = !rangeHits (s.tbs t).toTbInfo start fin) ∧
      (∀ p, s'.physRamDirty p = s.physRamDirty p ∨
        s'.physRamDirty p = s.physRamDirty p ||| codeDirtyFlag) := by
  obtain ⟨s', K, hrun, hr, hw, hm, hi, hK, hd⟩ :=
    tbInvalidatePhysPageRange_spec cpu h.repr h.wf h.mem hone
  exact ⟨s', K, hrun, h.of_sameInfo hi (Finset.filter_subset _ _) hr hw hm, hi, hK, hd⟩

theorem TbInv.addJump {t n u : ℕ} (h : TbInv s A) (ht : t ∈ A.valid) (hu : u ∈ A.valid)
    (hn : n < 2) : ∃ A', TbInv (tbAddJump s t n u) A' ∧ A'.valid = A.valid := by
  obtain ⟨A', hr, hw, hv, hp, hi, hs⟩ := tbAddJump_spec h.repr h.wf ht hu hn
  refine ⟨A', h.of_sameInfo hi (by rw [hv]) hr hw (h.mem.shrink hi hs ?_), hv⟩
  intro p v hv'
  rwa [hp] at hv'

/-! ### Generating a block -/

/-- The state between `tb_alloc` and `tb_link_phys`, when there is room. -/
def allocated (s : ExecState) (b : CodeBlock) : ExecState :=
  tbFill { modTb s s.nbTbs (fun t => { t with pc := b.pc }) with nbTbs := s.nbTbs + 1 } s.nbTbs b

theorem CodeBlock.crosses_iff (b : CodeBlock) :
    b.crosses ↔ targetPageSize < b.pc % targetPageSize + b.size := by
  have hpos := b.size_pos
  have hfits := b.fits
  unfold CodeBlock.crosses
  unfold targetPageSize at *
  omega

theorem allocated_tbs (s : ExecState) (b : CodeBlock) :
    (∀ u ≠ s.nbTbs, (allocated s b).tbs u = s.tbs u) ∧
      (allocated s b).tbs s.nbTbs = { s.tbs s.nbTbs with
        pc := b.pc, size := b.size, tcPtr := s.codeGenPtr, tbNextOffset := b.tbNextOffset } :=
  ⟨fun u hu => by simp [allocated, tbFill, hu], by simp [allocated, tbFill, modTb]⟩

theorem samePage_allocated (s : ExecState) (b : CodeBlock) : SamePage s (allocated s b) := by
  obtain ⟨hold, hnew⟩ := allocated_tbs s b
  refine ⟨funext fun v => ?_, fun _ => rfl⟩
  unfold pageNext
  by_cases hv : v.tb = s.nbTbs
  · rw [hv, hnew]
  · rw [hold _ hv]

/-- A block generated and linked has the right shape. -/
theorem CodeBlock.geom (b : CodeBlock) {tb : TbInfo} (hpc : tb.pc = b.pc) (hsize : tb.size = b.size)
    (h0 : tb.pageAddr 0 = pageMask b.physPc) (h1 : tb.pageAddr 1 = b.page2) : tb.Geom := by
  refine ⟨?_, ?_, ?_, ?_⟩
  · rw [hsize]; exact b.size_pos
  · rw [hsize, hpc]; exact b.fits
  · rw [h0]; exact Nat.mul_mod_left _ _
  · rw [hsize, hpc, h1]
    unfold CodeBlock.page2
    by_cases hc : b.crosses
    · have := b.crosses_iff.mp hc
      rw [if_neg (by omega), if_pos hc]
      exact b.physPage2_mod
    · have : ¬ targetPageSize < _ := fun h => hc (b.crosses_iff.mpr h)
      rw [if_pos (by omega), if_neg hc]

/-- Generating a block when there is room links it. -/
theorem TbInv.link (h : TbInv s A) (b : CodeBlock) :
    ∃ s' A', tbLinkPhys (allocated s b) s.nbTbs b.physPc b.page2 = some s' ∧ TbInv s' A' ∧
      A'.valid = insert s.nbTbs A.valid := by
  set t := s.nbTbs with ht
  set s₁ := allocated s b with hs₁
  -- the new block is in no list yet, so the lists say the same of the others
  have hold : ∀ u ≠ t, s₁.tbs u = s.tbs u := (allocated_tbs s b).1
  have hne : ∀ {u}, u ∈ A.valid → u ≠ t := fun hu => (h.wf.lt _ hu).ne
  have hnew : s₁.tbs t = { s.tbs t with
      pc := b.pc, size := b.size, tcPtr := s.codeGenPtr, tbNextOffset := b.tbNextOffset } :=
    (allocated_tbs s b).2
  have hfields : (s₁.tbs t).pc = b.pc ∧ (s₁.tbs t).size = b.size := by simp [hnew]
  have hhash : SameHash s s₁ := by
    refine ⟨funext fun u => ?_, rfl⟩
    unfold hashNext
    by_cases hu : u = t
    · rw [hu, hnew]
    · rw [hold u hu]
  have hpage : SamePage s s₁ := samePage_allocated s b
  have hjmp : SameJmp s s₁ := by
    refine ⟨funext fun v => ?_, fun u => ?_⟩
    · unfold jmpNext
      by_cases hv : v.tb = t
      · rw [hv, hnew]
      · rw [hold _ hv]
    · by_cases hu : u = t
      · rw [hu, hnew]
      · rw [hold u hu]
  have hnb : s₁.nbTbs = t + 1 := rfl
  have hr₁ : TbRepr s₁ A := h.repr.congr hhash hpage hjmp
  have hw₁ : TbWf s₁ A := h.wf.congr_valid (fun u hu => by rw [hold u (hne hu)]) (by omega) hjmp
  have hm₁ : TbMem s₁ A := h.mem.congr rfl (fun _ => rfl) (fun p v hv => by
    unfold bitmapRange
    rw [hold _ (hne ((h.wf.memPage p v).mp hv).1)]) (fun _ => rfl)
  have hfresh : t ∉ A.valid := fun hm => absurd rfl (hne hm)
  have hpc : b.physPc % targetPageSize = (s₁.tbs t).pc % targetPageSize := by
    rw [hfields.1]
    exact b.physPc_mod
  obtain ⟨s₂, hrun, hf, h0, h1, hr₂, hw₂, hm₂⟩ :=
    tbLinkPhys_spec b.page2 hr₁ hw₁ hm₁ hfresh (by omega) hpc
  refine ⟨s₂, _, hrun, ⟨hr₂, hw₂, hm₂, fun u hu => ?_, ?_, ?_⟩, rfl⟩
  · rcases Finset.mem_insert.mp hu with rfl | hu
    · exact b.geom (hf.pc.trans hfields.1) (hf.size.trans hfields.2) h0 h1
    · rw [hf.info u (hne hu), hold u (hne hu)]
      exact h.geom u hu
  · rw [hf.maxBlocks]; exact h.maxBlocks
  · rw [hf.maxSize]; exact h.maxSize

/-- `tb_gen_code` always links a block, after a flush if there is no room. -/
theorem TbInv.genCode (h : TbInv s A) (b : CodeBlock) :
    ∃ s' A', (TbOp.genCode b).exec s = some s' ∧ TbInv s' A' ∧
      A'.valid = (TbOp.genCode b).linked s A.valid := by
  by_cases hroom : s.hasRoom
  · obtain ⟨s', A', hrun, hinv, hv⟩ := h.link b
    refine ⟨s', A', ?_, hinv, ?_⟩
    · simp only [TbOp.exec, tbGenCode, tbAlloc, if_pos hroom, Option.bind_eq_bind,
        Option.bind_some]
      simp only [allocated] at hrun
      rw [hrun]
      rfl
    · simp only [TbOp.linked, if_pos hroom, hv]
  -- after a flush there is room
  · have hroom' : (tbFlush s).hasRoom := by
      refine ⟨h.maxBlocks, ?_⟩
      have : (tbFlush s).codeGenPtr - (tbFlush s).codeGenBuffer = 0 := Nat.sub_self s.codeGenBuffer
      rw [this]
      exact h.maxSize
    obtain ⟨s', A', hrun, hinv, hv⟩ := h.flush.link b
    refine ⟨s', A', ?_, hinv, ?_⟩
    · simp only [TbOp.exec, tbGenCode, tbAlloc, if_neg hroom, if_pos hroom', Option.bind_eq_bind,
        Option.bind_some]
      simp only [allocated] at hrun
      rw [hrun]
      rfl
    · simp only [TbOp.linked, if_neg hroom, hv]
      rfl

/-! ### Steps and runs -/

/-- A step whose condition holds succeeds and keeps the invariant. -/
theorem TbOp.step_inv (h : TbInv s A) (op : TbOp) (hok : op.Ok s A.valid) :
    ∃ s' A', op.step (s, A.valid) = some (s', A'.valid) ∧ TbInv s' A' := by
  have hstep : ∀ {s' : ExecState} {A' : TbLists}, op.exec s = some s' →
      A'.valid = op.linked s A.valid →
      op.step (s, A.valid) = some (s', A'.valid) := by
    intro s' A' hrun hv
    simp [TbOp.step, hrun, hv]
  cases op with
  | genCode b =>
    obtain ⟨s', A', hrun, hinv, hv⟩ := h.genCode b
    exact ⟨s', A', hstep hrun hv, hinv⟩
  | addJump t n u =>
    obtain ⟨ht, hu, hn⟩ := hok
    obtain ⟨A', hinv, hv⟩ := h.addJump ht hu hn
    exact ⟨_, A', hstep rfl hv, hinv⟩
  | physInvalidate t =>
    obtain ⟨s', hrun, hinv⟩ := h.physInvalidate hok
    refine ⟨s', A.remove t, hstep hrun ?_, hinv⟩
    ext u
    rw [mem_remove_valid]
    exact Finset.mem_erase.symm
  | invalidateRange start fin cpu =>
    obtain ⟨s', K, hrun, hinv, _, hK, _⟩ := h.invalidateRange cpu hok
    refine ⟨s', A.keep K, hstep hrun ?_, hinv⟩
    refine Finset.filter_congr (fun t ht => ?_)
    rw [hK t ht, Bool.not_eq_true']
  | flush => exact ⟨_, TbLists.empty, hstep rfl rfl, h.flush⟩

/-- A run from an invariant state whose calls meet their conditions keeps the invariant. -/
theorem tbRun_inv (h : TbInv s A) (ops : List TbOp) (hok : RunOk (s, A.valid) ops) :
    ∃ s' A', tbRun (s, A.valid) ops = some (s', A'.valid) ∧ TbInv s' A' := by
  induction ops generalizing s A with
  | nil => exact ⟨s, A, rfl, h⟩
  | cons op ops ih =>
    obtain ⟨hop, hrest⟩ := hok
    obtain ⟨s₁, A₁, hstep, hinv⟩ := op.step_inv h hop
    obtain ⟨s', A', hrun, hinv'⟩ := ih hinv (hrest _ hstep)
    exact ⟨s', A', by simp [tbRun, hstep, hrun], hinv'⟩

/-- From the state after startup, every run whose calls name valid blocks and whose range
    invalidations hit no block twice ends without following a null link, and leaves chains that
    hold exactly the valid blocks. -/
theorem tbRun_wellFormed {s : ExecState} (hs : s.Init) (ops : List TbOp)
    (hok : RunOk (s, ∅) ops) :
    ∃ s' A, tbRun (s, ∅) ops = some (s', A.valid) ∧ TbRepr s' A ∧ TbWf s' A := by
  obtain ⟨s', A, hrun, hinv⟩ := tbRun_inv (TbInv.init hs) ops hok
  exact ⟨s', A, hrun, hinv.repr, hinv.wf⟩

/-! ### Concrete runs -/

/-- A state after startup, with room for four blocks. -/
def startState : ExecState where
  tbs _ := ⟨⟨0, 0, 0, fun _ => 0, fun _ => 0⟩, none, fun _ => none, fun _ => 0, fun _ => none, none⟩
  nbTbs := 0
  codeGenMaxBlocks := 4
  codeGenBuffer := 0x10000
  codeGenPtr := 0x10000
  codeGenBufferMaxSize := 4096
  tbPhysHash _ := none
  l1Map _ := none
  physRamDirty _ := 0xff
  tbJmpCache _ _ := none

theorem startState_init : startState.Init :=
  ⟨rfl, rfl, by decide, by decide, fun _ => rfl, fun _ => rfl⟩

/-- Eight bytes of code across a page boundary, the two virtual pages being the physical pages
    `p₁` and `p₂`. -/
def crossingBlock (p₁ p₂ : ℕ) : CodeBlock where
  pc := 0x8000 + 1020
  size := 8
  tbNextOffset n := 16 + n
  codeGenSize := 100
  physPc := p₁ * 1024 + 1020
  physPage2 := p₂ * 1024
  size_pos := by decide
  fits := by decide
  physPc_mod := by
    unfold targetPageSize
    omega
  physPage2_mod := by
    unfold targetPageSize
    omega

/-- Blocks that cross a page each way, a jump between them, and each kind of invalidation. -/
theorem tbRun_wellFormed_sample :
    RunOk (startState, ∅) [.genCode (crossingBlock 3 5), .genCode (crossingBlock 5 3),
      .addJump 0 1 1, .invalidateRange (5 * 1024) (5 * 1024 + 8) true, .physInvalidate 1, .flush] ∧
    ∃ s' A, tbRun (startState, ∅) [.genCode (crossingBlock 3 5), .genCode (crossingBlock 5 3),
      .addJump 0 1 1, .invalidateRange (5 * 1024) (5 * 1024 + 8) true, .physInvalidate 1, .flush] =
        some (s', A.valid) ∧ TbRepr s' A ∧ TbWf s' A :=
  have hok : RunOk (startState, ∅) [.genCode (crossingBlock 3 5), .genCode (crossingBlock 5 3),
      .addJump 0 1 1, .invalidateRange (5 * 1024) (5 * 1024 + 8) true, .physInvalidate 1,
      .flush] := by decide +kernel
  ⟨hok, tbRun_wellFormed startState_init _ hok⟩

/-- A block whose two virtual pages are one physical page, and a write to that whole page: the
    loop goes on to the second link of the block it has just invalidated and invalidates it again,
    which walks off the end of the hash chain. -/
theorem tbRun_crash :
    tbRun (startState, ∅) [.genCode (crossingBlock 3 3),
      .invalidateRange (3 * 1024) (4 * 1024) false] = none ∧
    ¬ ∃ s' A, tbRun (startState, ∅) [.genCode (crossingBlock 3 3),
      .invalidateRange (3 * 1024) (4 * 1024) false] = some (s', A.valid) ∧
        TbRepr s' A ∧ TbWf s' A := by
  have hcrash : tbRun (startState, ∅) [.genCode (crossingBlock 3 3),
      .invalidateRange (3 * 1024) (4 * 1024) false] = none := by
    rw [← Option.isNone_iff_eq_none]
    decide +kernel
  refine ⟨hcrash, ?_⟩
  rintro ⟨s', A, hrun, _⟩
  rw [hcrash] at hrun
  exact absurd hrun (by simp)

end Qemu.Exec
