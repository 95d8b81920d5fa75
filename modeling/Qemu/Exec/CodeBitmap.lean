import Qemu.Exec.StoreSpec

namespace Qemu.Exec

open Qemu.Lib

/-!
# The code bitmap in every state reached

The page lists and bitmaps do not depend on the hash chains and the jump lists being in order, so
what is said of them here holds of every run that does not crash, whatever the calls name.

* `PageInv` — the page lists spell the blocks linked, and bitmaps cover them;
* `CodeOp` — the calls: those on blocks, and stores through `tb_invalidate_phys_page_fast`;
* `CodeOp.exec_inv`, `codeRun_inv` — every call that ends keeps the invariant, and so does a run;
* `code_bitmap_covers` — a bitmap has a bit for every byte of code listed in its page, and the
  shortcut is taken only when no such byte is stored to.
-/

/-! ### The invariant -/

/-- The page lists hold exactly the valid blocks, and every bitmap covers the list of its page. -/
structure PageInv (s : ExecState) (A : TbLists) : Prop where
  seg : ∀ p, Seg (pageNext s) (firstTb s p) (A.page p) none
  wf : PageTbsWf s A
  mem : TbMem s A
  geom : ∀ t ∈ A.valid, (s.tbs t).toTbInfo.Geom

/-- Page lists, blocks and bitmaps stay, but for bitmaps that are dropped. -/
structure PageSame (s s' : ExecState) : Prop where
  page : SamePage s s'
  info : SameInfo s s'
  mem : ShrinkMem s s'

theorem PageSame.refl (s : ExecState) : PageSame s s := ⟨.refl s, .refl s, .refl s⟩

variable {s s' : ExecState}

theorem PageSame.trans {s'' : ExecState} (h : PageSame s s') (h' : PageSame s' s'') :
    PageSame s s'' :=
  ⟨h.page.trans h'.page, h.info.trans h'.info, h.mem.trans h'.mem⟩

theorem PageSame.modTb (s : ExecState) (t : ℕ) {f : TranslationBlock → TranslationBlock}
    (hp : ∀ tb, (f tb).pageNext = tb.pageNext) (hi : ∀ tb, (f tb).toTbInfo = tb.toTbInfo) :
    PageSame s (modTb s t f) :=
  ⟨.modTb s t hp, .modTb s t hi, .modTb s t f⟩

theorem JmpFrame.pageSame (h : JmpFrame s s') : PageSame s s' :=
  ⟨h.page, h.info, h.mem⟩

variable {A : TbLists}

theorem PageTbsWf.congr (hw : PageTbsWf s A) (hi : SameInfo s s') :
    PageTbsWf s' A where
  lt := fun t ht => hi.nbTbs ▸ hw.lt t ht
  page0 := fun t ht => by rw [hi.info]; exact hw.page0 t ht
  pageNodup := hw.pageNodup
  memPage := fun p v => by rw [hi.info]; exact hw.memPage p v

theorem PageInv.of_same (h : PageInv s A) (hs : PageSame s s') :
    PageInv s' A where
  seg := fun p => by rw [hs.page.next, hs.page.head]; exact h.seg p
  wf := h.wf.congr hs.info
  mem := h.mem.shrink hs.info hs.mem (fun _ _ hv => hv)
  geom := fun t ht => by rw [hs.info.info]; exact h.geom t ht

variable {t : ℕ}

/-- A block taken out of the page lists. -/
theorem PageInv.remove {s s' : ExecState} {A : TbLists} {t : ℕ} (h : PageInv s A)
    (hi : SameInfo s s') (hs : ShrinkMem s s')
    (hseg : ∀ p, Seg (pageNext s') (firstTb s' p)
      ((A.page p).filter (fun v => !(v.tb == t))) none) :
    PageInv s' (A.remove t) where
  seg := hseg
  wf :=
    { lt := fun u hu => hi.nbTbs ▸ h.wf.lt u (mem_remove_valid.mp hu).2
      page0 := fun u hu => by rw [hi.info]; exact h.wf.page0 u (mem_remove_valid.mp hu).2
      pageNodup := fun p => (h.wf.pageNodup p).filter _
      memPage := fun p v => by
        rw [hi.info, mem_remove_valid]
        show v ∈ (A.page p).filter _ ↔ _
        rw [List.mem_filter, h.wf.memPage, Bool.not_eq_true', beq_eq_false_iff_ne]
        tauto }
  mem := h.mem.shrink hi hs (fun _ _ hv => keep_page_sub hv)
  geom := fun u hu => by rw [hi.info]; exact h.geom u (mem_remove_valid.mp hu).2

/-! ### Invalidating a block -/

/-- Removing a block from a page it is not listed in follows the null link. -/
theorem tbPageRemove_eq_none {l : List TbPtr} {index : ℕ}
    (hseg : Seg (pageNext s) (firstTb s index) l none) (ht : ∀ v ∈ l, v.tb ≠ t) :
    tbPageRemove s index t = none := by
  unfold tbPageRemove
  cases hd : pageFind s index with
  | none => rfl
  | some d =>
    have hfirst : firstTb s index = d.firstTb := by simp [firstTb, hd]
    have hnone : findCell d.firstTb (pageNext s) (fun v => v.tb == t) s.loopBound .head = none :=
      findCell_eq_none (c := .head) s.loopBound (hfirst ▸ hseg)
        (fun v hv => beq_eq_false_iff_ne.mpr (ht v hv))
    simp [hnone]

theorem PageInv.unlinkPage_eq_none (h : PageInv s A) (ht : t ∉ A.valid) (index : ℕ) :
    unlinkPage s t index = none := by
  have hnone : tbPageRemove s index t = none :=
    tbPageRemove_eq_none (h.seg index) fun v hv hvt => ht (hvt ▸ ((h.wf.memPage _ v).mp hv).1)
  rw [unlinkPage, hnone]
  rfl

/-- A block is taken out of all its pages; one that is not linked was in none. -/
theorem PageInv.unlinkPages (h : PageInv s A) (hrun : unlinkPages s t noPage = some s') :
    ∃ A', PageInv s' A' := by
  by_cases ht : t ∈ A.valid
  · obtain ⟨s₁, hrun₁, -, -, hi, hs, hseg, -⟩ := unlinkPages_spec h.wf h.seg ht
    cases hrun.symm.trans hrun₁
    exact ⟨A.remove t, h.remove hi hs hseg⟩
  · have hnone := h.unlinkPage_eq_none ht
    unfold Exec.unlinkPages at hrun
    by_cases h0 : (s.tbs t).pageAddr 0 ≠ noPage
    · rw [if_pos h0, hnone] at hrun
      cases hrun
    · rw [if_neg h0] at hrun
      simp only [Option.bind_eq_bind, Option.bind_some, hnone] at hrun
      split at hrun
      · cases hrun
      · cases hrun
        exact ⟨A, h⟩

theorem tbJmpRemove_frame {n : ℕ} (hrun : tbJmpRemove s t n = some s') : JmpFrame s s' := by
  unfold tbJmpRemove at hrun
  split at hrun
  · cases hrun
    exact .refl s
  · obtain ⟨k, -, hk⟩ := Option.bind_eq_some_iff.mp hrun
    cases hk
    exact (JmpFrame.writeJmp s k _).trans ⟨.modTb _ t (fun _ => rfl), .modTb _ t (fun _ => rfl),
      .modTb _ t (fun _ => rfl), .modTb _ t _⟩

theorem resetJumps_frame {fuel : ℕ} {p : Option TbPtr} (hrun : resetJumps fuel s p = some s') :
    JmpFrame s s' := by
  induction fuel generalizing s p with
  | zero => cases hrun
  | succ fuel ih =>
    cases p with
    | none => cases hrun
    | some v =>
      unfold resetJumps at hrun
      split at hrun
      · cases hrun
        exact .refl _
      · have hnext : JmpFrame (tbResetJump s v.tb v.n) (modTb (tbResetJump s v.tb v.n) v.tb
            (fun t => { t with jmpNext := Function.update t.jmpNext v.n none })) :=
          ⟨.modTb _ _ (fun _ => rfl), .modTb _ _ (fun _ => rfl), .modTb _ _ (fun _ => rfl),
            .modTb _ _ _⟩
        exact ((JmpFrame.tbResetJump s v.tb v.n).trans hnext).trans (ih hrun)

/-- `tb_phys_invalidate`, of any block whatever. -/
theorem PageInv.physInvalidate (h : PageInv s A) (hrun : tbPhysInvalidate s t noPage = some s') :
    ∃ A', PageInv s' A' := by
  unfold tbPhysInvalidate at hrun
  obtain ⟨s₁, hrun₁, hrun⟩ := Option.bind_eq_some_iff.mp hrun
  obtain ⟨s₂, hrun₂, hrun⟩ := Option.bind_eq_some_iff.mp hrun
  obtain ⟨s₃, hrun₃, hrun⟩ := Option.bind_eq_some_iff.mp hrun
  obtain ⟨s₄, hrun₄, hrun⟩ := Option.bind_eq_some_iff.mp hrun
  obtain ⟨s₅, hrun₅, hrun⟩ := Option.bind_eq_some_iff.mp hrun
  cases hrun
  -- the hash chain
  have h₁ : PageInv s₁ A := by
    unfold tbRemove at hrun₁
    obtain ⟨k, -, hk⟩ := Option.bind_eq_some_iff.mp hrun₁
    cases hk
    exact h.of_same ⟨.writeHash s _ k _, .writeHash s _ k _, .writeHash s _ k _⟩
  obtain ⟨A', h₂⟩ := h₁.unlinkPages hrun₂
  -- the jump cache and the jumps
  have hcache : PageSame s₂ (tbJmpCacheRemove s₂ t) :=
    ⟨⟨rfl, fun _ => rfl⟩, ⟨fun _ => rfl, rfl, rfl, rfl, rfl⟩,
      ⟨rfl, fun _ => rfl, fun _ => .inr rfl⟩⟩
  have hjumps := ((tbJmpRemove_frame hrun₃).trans (tbJmpRemove_frame hrun₄)).trans
    (resetJumps_frame hrun₅)
  exact ⟨A', h₂.of_same ((hcache.trans hjumps.pageSame).trans
    ⟨.modTb s₅ t (fun _ => rfl), .modTb s₅ t (fun _ => rfl), .modTb s₅ t _⟩)⟩

/-! ### Invalidating a range -/

variable {start : ℕ}

/-- The loop over the blocks of a page keeps the invariant, with some of the blocks gone. -/
theorem PageInv.invalidateLoop {fin fuel : ℕ} {cur : Option TbPtr} (h : PageInv s A)
    (hrun : invalidateLoop start fin fuel s cur = some s') : ∃ A', PageInv s' A' := by
  induction fuel generalizing s A cur with
  | zero =>
    cases cur with
    | none => cases hrun; exact ⟨A, h⟩
    | some v => cases hrun
  | succ fuel ih =>
    cases cur with
    | none => cases hrun; exact ⟨A, h⟩
    | some v =>
      simp only [Exec.invalidateLoop] at hrun
      split at hrun
      · obtain ⟨s₁, hrun₁, hrun⟩ := Option.bind_eq_some_iff.mp hrun
        obtain ⟨A₁, h₁⟩ := h.physInvalidate hrun₁
        exact ih h₁ hrun
      · exact ih h hrun

theorem PageInv.page_nil (h : PageInv s A) {p : ℕ} (hp : firstTb s p = none) : A.page p = [] := by
  have hnil : Seg (pageNext s) (firstTb s p) [] none := hp
  exact Seg.unique (h.seg p) hnil

/-- `tb_invalidate_phys_page_range`, whatever it hits. -/
theorem PageInv.invalidateRange {fin : ℕ} {cpu : Bool} (h : PageInv s A)
    (hrun : tbInvalidatePhysPageRange s start fin cpu = some s') : ∃ A', PageInv s' A' := by
  unfold tbInvalidatePhysPageRange at hrun
  set p := start / targetPageSize with hp
  cases hd : pageFind s p with
  | none =>
    simp only [hd, Option.some.injEq] at hrun
    exact ⟨A, hrun ▸ h⟩
  | some d =>
    simp only [hd] at hrun
    obtain ⟨s₁, hrun₁, hrun⟩ := Option.bind_eq_some_iff.mp hrun
    obtain ⟨s₂, hrun₂, hrun⟩ := Option.bind_eq_some_iff.mp hrun
    obtain ⟨d₂, hd₂, hrun⟩ := Option.bind_eq_some_iff.mp hrun
    have h₁ : PageInv s₁ A := by
      obtain ⟨s₁', hrun₁', -, hp₁, -, hi₁, hm₁, -⟩ := countCodeWrite_spec cpu h.seg h.wf h.mem hd
      cases hrun₁.symm.trans hrun₁'
      exact ⟨fun q => by rw [hp₁.next, hp₁.head]; exact h.seg q, h.wf.congr hi₁, hm₁,
        fun t ht => by rw [hi₁.info]; exact h.geom t ht⟩
    obtain ⟨A₂, h₂⟩ := h₁.invalidateLoop hrun₂
    by_cases hempty : d₂.firstTb.isNone = true
    · rw [if_pos hempty] at hrun
      have h₃ : PageInv (invalidatePageBitmap s₂ p) A₂ :=
        h₂.of_same ⟨.modPage s₂ p (fun _ => rfl), .modPage s₂ p _,
          .modPage s₂ p (fun _ => .inl rfl)⟩
      cases cpu with
      | false => cases hrun; exact ⟨A₂, h₃⟩
      | true =>
        cases hrun
        -- the page has no block left, so its flag may be set
        have hnil : A₂.page p = [] := by
          refine h₂.page_nil ?_
          simpa [firstTb, hd₂] using hempty
        refine ⟨A₂, h₃.seg, h₃.wf.congr ⟨fun _ => rfl, rfl, rfl, rfl, rfl⟩, ⟨fun q hq => ?_,
          h₃.mem.bitmap⟩, h₃.geom⟩
        have hqp : q ≠ p := fun hqp => hq (hqp ▸ hnil)
        simp only [tlbUnprotectCodePhys, ← hp, if_true, Function.update_of_ne hqp]
        exact h₃.mem.clean q hq
    · rw [if_neg hempty] at hrun
      cases hrun
      exact ⟨A₂, h₂⟩

theorem PageInv.invalidateFast {len : ℕ} (h : PageInv s A)
    (hrun : tbInvalidatePhysPageFast s start len = some s') : ∃ A', PageInv s' A' := by
  unfold tbInvalidatePhysPageFast at hrun
  split at hrun
  · cases hrun; exact ⟨A, h⟩
  · split at hrun
    · simp only at hrun
      split at hrun
      · exact h.invalidateRange hrun
      · cases hrun; exact ⟨A, h⟩
    · exact h.invalidateRange hrun

/-! ### The other calls -/

theorem PageInv.flush (s : ExecState) : PageInv (tbFlush s) TbLists.empty := by
  obtain ⟨hr, hw, hm⟩ := tbFlush_spec s
  exact ⟨hr.page, hw.pageWf, hm, fun t ht => absurd ht (by simp [TbLists.empty])⟩

theorem PageInv.init (h : s.Init) : PageInv s TbLists.empty :=
  ⟨(TbInv.init h).repr.page, (TbInv.init h).wf.pageWf, (TbInv.init h).mem, (TbInv.init h).geom⟩

/-- `tb_add_jump`, between any two blocks. -/
theorem PageSame.addJump (s : ExecState) (t n u : ℕ) : PageSame s (tbAddJump s t n u) := by
  unfold tbAddJump
  split
  · have htarget : PageSame s (tbSetJmpTarget s t n (s.tbs u).tcPtr) :=
      .modTb s t (fun _ => rfl) (fun _ => rfl)
    have hnext : ∀ s₁ x, PageSame s₁ (Exec.modTb s₁ t (fun tb => { tb with
        jmpNext := Function.update tb.jmpNext n x })) :=
      fun s₁ x => .modTb s₁ t (fun _ => rfl) (fun _ => rfl)
    have hfirst : ∀ s₁ y, PageSame s₁ (Exec.modTb s₁ u (fun tb => { tb with jmpFirst := y })) :=
      fun s₁ y => .modTb s₁ u (fun _ => rfl) (fun _ => rfl)
    exact htarget.trans ((hnext _ _).trans (hfirst _ _))
  · exact .refl s

/-- Generating a block when there is room. -/
theorem PageInv.link (h : PageInv s A) (b : CodeBlock)
    (hrun : tbLinkPhys (allocated s b) s.nbTbs b.physPc b.page2 = some s') :
    ∃ A', PageInv s' A' := by
  set t := s.nbTbs with ht
  set s₁ := allocated s b with hs₁
  obtain ⟨hold, hnew⟩ := allocated_tbs s b
  have hne : ∀ {u}, u ∈ A.valid → u ≠ t := fun hu => (h.wf.lt _ hu).ne
  have hfresh : t ∉ A.valid := fun hm => hne hm rfl
  have hw₁ : PageTbsWf s₁ A :=
    { lt := fun u hu => Nat.lt_succ_of_lt (h.wf.lt u hu)
      page0 := fun u hu => by rw [hold u (hne hu)]; exact h.wf.page0 u hu
      pageNodup := h.wf.pageNodup
      memPage := fun p v => by
        rw [h.wf.memPage]
        refine and_congr_right fun hv => ?_
        rw [hold _ (hne hv)] }
  have hm₁ : TbMem s₁ A := h.mem.congr rfl (fun _ => rfl) (fun p v hv => by
    unfold bitmapRange
    rw [hold _ (hne ((h.wf.memPage p v).mp hv).1)]) (fun _ => rfl)
  -- the hash chain
  let s₂ : ExecState := modTb s₁ t (fun tb => { tb with
    physHashNext := s₁.tbPhysHash (tbPhysHashFunc b.physPc) })
  let s₃ : ExecState := { s₂ with
    tbPhysHash := Function.update s₂.tbPhysHash (tbPhysHashFunc b.physPc) (some t) }
  have hp₃ : SamePage s s₃ := ((samePage_allocated s b).trans
    (.modTb s₁ t (fun _ => rfl) : SamePage s₁ s₂)).trans ⟨rfl, fun _ => rfl⟩
  have hi₃ : SameInfo s₁ s₃ := SameInfo.trans (.modTb s₁ t (fun _ => rfl) : SameInfo s₁ s₂)
    ⟨fun _ => rfl, rfl, rfl, rfl, rfl⟩
  have hm₃ : TbMem s₃ A := hm₁.congr rfl (fun _ => rfl) (fun _ v _ => bitmapRange_congr hi₃ v)
    (fun _ => rfl)
  obtain ⟨s₄, hrun₄, hf₄, h0, h1, hseg₄, hm₄⟩ := tbLinkPages_spec (t := t) b.physPc b.page2
    (fun p => by rw [hp₃.next, hp₃.head]; exact h.seg p) hm₃
    (fun p v hv hvt => hfresh (hvt ▸ ((h.wf.memPage p v).mp hv).1))
  have hjf := (tbInitJumps_spec s₄ t).1
  have hs' : s' = tbInitJumps s₄ t := by
    have hdef : tbLinkPhys s₁ t b.physPc b.page2 =
        (tbLinkPages s₃ t b.physPc b.page2).bind (fun s => some (tbInitJumps s t)) := rfl
    rw [hdef, hrun₄] at hrun
    exact (Option.some.inj hrun).symm
  have hframe : LinkFrame t s₁ s' := hs' ▸
    ((hi₃.linkFrame t rfl).trans hf₄.toLinkFrame).trans (hjf.info.linkFrame t hjf.mem.dirty)
  have hinfo : (s'.tbs t).toTbInfo = (s₄.tbs t).toTbInfo := hs' ▸ hjf.info.info t
  have h0' : (s'.tbs t).pageAddr 0 = pageMask b.physPc := by rw [hinfo]; exact h0
  have h1' : (s'.tbs t).pageAddr 1 = b.page2 := by rw [hinfo]; exact h1
  have hpages : ∀ p, (A.link t (s'.tbs t).toTbInfo).page p =
      slotLinks (s₄.tbs t).toTbInfo t p ++ A.page p := fun p => by rw [link_page, hinfo]
  refine ⟨A.link t (s'.tbs t).toTbInfo, fun p => ?_, hw₁.link hframe hfresh (Nat.lt_succ_self t)
    (h0' ▸ pageMask_ne_noPage b.physPc), ?_, fun u hu => ?_⟩
  · rw [hpages, hs', hjf.page.next, hjf.page.head]
    exact hseg₄ p
  · rw [hs'] at hpages ⊢
    exact hm₄.shrink hjf.info hjf.mem (fun p v hv => by rw [hpages] at hv; exact hv)
  · rcases Finset.mem_insert.mp hu with rfl | hu
    · exact b.geom (hframe.pc.trans (by rw [hnew])) (hframe.size.trans (by rw [hnew])) h0' h1'
    · rw [hframe.info u (hne hu), hold u (hne hu)]
      exact h.geom u hu

/-- `tb_gen_code`, with a flush before if there is no room. -/
theorem PageInv.genCode (h : PageInv s A) (b : CodeBlock) {r : ExecState × ℕ}
    (hrun : tbGenCode s b = some r) : ∃ A', PageInv r.1 A' := by
  have hroom : ∀ {s₀ s₁ : ExecState} {A₀ : TbLists} {t : ℕ}, PageInv s₀ A₀ →
      tbAlloc s₀ b.pc = some (s₁, t) → (tbLinkPhys (tbFill s₁ t b) t b.physPc b.page2).bind
        (fun s => some (s, t)) = some r → ∃ A', PageInv r.1 A' := by
    intro s₀ s₁ A₀ t h₀ hsome hfill
    obtain ⟨s₂, hlink, hr⟩ := Option.bind_eq_some_iff.mp hfill
    cases hr
    unfold tbAlloc at hsome
    split at hsome
    · cases hsome
      exact h₀.link b hlink
    · cases hsome
  unfold tbGenCode at hrun
  cases hfirst : tbAlloc s b.pc with
  | some q =>
    rw [hfirst] at hrun
    exact hroom h hfirst hrun
  | none =>
    rw [hfirst] at hrun
    obtain ⟨q, hq, hlink⟩ := Option.bind_eq_some_iff.mp hrun
    exact hroom (PageInv.flush s) hq hlink

/-! ### Runs -/

/-- A call that may change page lists or bitmaps. -/
inductive CodeOp where
  | tb (op : TbOp)
  /-- `tb_invalidate_phys_page_fast`, for a store of `len` bytes. -/
  | store (start len : ℕ)

/-- What a call does to the state; `none` if it follows a null link. -/
def CodeOp.exec (s : ExecState) : CodeOp → Option ExecState
  | .tb op => op.exec s
  | .store start len => tbInvalidatePhysPageFast s start len

/-- A sequence of calls. -/
def codeRun (s : ExecState) : List CodeOp → Option ExecState
  | [] => some s
  | op :: ops => (op.exec s).bind fun s => codeRun s ops

/-- Every call that ends keeps the invariant. -/
theorem CodeOp.exec_inv (h : PageInv s A) (op : CodeOp) (hrun : op.exec s = some s') :
    ∃ A', PageInv s' A' := by
  cases op with
  | tb op =>
    cases op with
    | genCode b =>
      obtain ⟨r, hr, rfl⟩ := Option.map_eq_some_iff.mp hrun
      exact h.genCode b hr
    | addJump t n u =>
      cases hrun
      exact ⟨A, h.of_same (.addJump s t n u)⟩
    | physInvalidate t => exact h.physInvalidate hrun
    | invalidateRange start fin cpu => exact h.invalidateRange hrun
    | flush =>
      cases hrun
      exact ⟨_, PageInv.flush s⟩
  | store start len => exact h.invalidateFast hrun

theorem codeRun_inv (h : PageInv s A) (ops : List CodeOp) (hrun : codeRun s ops = some s') :
    ∃ A', PageInv s' A' := by
  induction ops generalizing s A with
  | nil => cases hrun; exact ⟨A, h⟩
  | cons op ops ih =>
    obtain ⟨s₁, hrun₁, hrun⟩ := Option.bind_eq_some_iff.mp hrun
    obtain ⟨A₁, h₁⟩ := op.exec_inv h hrun₁
    exact ih h₁ hrun

/-! ### What the bitmap says -/

/-- The block is in the list of the page. -/
def Listed (s : ExecState) (p t : ℕ) : Prop :=
  ∃ l, Seg (pageNext s) (firstTb s p) l none ∧ ∃ v ∈ l, v.tb = t

theorem PageInv.valid_of_listed (h : PageInv s A) {p : ℕ} (ht : Listed s p t) : t ∈ A.valid := by
  obtain ⟨l, hl, v, hv, rfl⟩ := ht
  rw [Seg.unique hl (h.seg p)] at hv
  exact ((h.wf.memPage p v).mp hv).1

/-- The bitmap has a bit for every byte of a listed block in its page. -/
theorem PageInv.bitSet_of_covers (h : PageInv s A) {x : ℕ} {bm : ℕ → BitVec 8}
    (hbm : bitmapOf s (x / targetPageSize) = some bm) (ht : Listed s (x / targetPageSize) t)
    (hx : (s.tbs t).toTbInfo.covers x) : bitSet bm (x % targetPageSize) = true := by
  have hvalid := h.valid_of_listed ht
  have hlt : x % targetPageSize < targetPageSize := Nat.mod_lt _ (by decide)
  rcases (h.geom t hvalid).byte_slot (h.wf.page0 t hvalid) hx with ⟨hs, hlo, hhi, _⟩ | ⟨hs, hhi, _⟩
  · refine h.mem.bitmap _ bm hbm ⟨t, 0⟩ ((h.wf.memPage _ _).mpr ⟨hvalid, hs⟩) _ ?_ ?_
    · simpa [bitmapRange] using hlo
    · simpa [bitmapRange] using ⟨hhi, hlt⟩
  · refine h.mem.bitmap _ bm hbm ⟨t, 1⟩ ((h.wf.memPage _ _).mpr ⟨hvalid, hs⟩) _ ?_ ?_
    · simp [bitmapRange]
    · simpa [bitmapRange] using hhi

/-- When the shortcut is taken, no listed block has a byte that is stored to. -/
theorem PageInv.shortcut (h : PageInv s A) {len : ℕ} (hlen : start % 8 + len ≤ 8) :
    tbInvalidatePhysPageFast s start len = tbInvalidatePhysPageRange s start (start + len) true ∨
    (tbInvalidatePhysPageFast s start len = some s ∧
      ∀ t, Listed s (start / targetPageSize) t → ∀ x, start ≤ x → x < start + len →
        ¬ (s.tbs t).toTbInfo.covers x) := by
  have hpage : ∀ x, start ≤ x → x < start + len →
      x / targetPageSize = start / targetPageSize := by
    intro x hlo hhi
    unfold targetPageSize
    omega
  unfold tbInvalidatePhysPageFast
  cases hd : pageFind s (start / targetPageSize) with
  | none =>
    -- a page without descriptor has no list
    refine .inr ⟨rfl, fun t ht => ?_⟩
    obtain ⟨l, hl, v, hv, -⟩ := ht
    have hnil : firstTb s (start / targetPageSize) = none := by simp [firstTb, hd]
    rw [hnil] at hl
    have hempty : Seg (pageNext s) none [] none := rfl
    rw [Seg.unique hl hempty] at hv
    exact absurd hv List.not_mem_nil
  | some d =>
    cases hb : d.codeBitmap with
    | none => exact .inl (by simp only [hb])
    | some bm =>
      simp only [hb]
      split
      · exact .inl rfl
      · next hbits =>
        refine .inr ⟨rfl, fun t ht x hlo hhi hx => ?_⟩
        have hbm : bitmapOf s (x / targetPageSize) = some bm := by
          simp [bitmapOf, hpage x hlo hhi, hd, hb]
        have hset := h.bitSet_of_covers hbm (hpage x hlo hhi ▸ ht) hx
        have hoff : start % targetPageSize % 8 + len ≤ 8 := by
          unfold targetPageSize
          omega
        have hclear := bitSet_of_shift (k := x - start) hoff (by omega) (not_not.mp hbits)
        have hplace : start % targetPageSize + (x - start) = x % targetPageSize := by
          have := hpage x hlo hhi
          unfold targetPageSize at *
          omega
        rw [hplace, hset] at hclear
        cases hclear

/-- **The code bitmap covers the code of its page** in every state a run reaches, `set_bits` sets
    the bits it is asked for, and the shortcut never skips an invalidation that an aligned store
    needs. -/
theorem code_bitmap_covers {s s' : ExecState} (hs : s.Init) (ops : List CodeOp)
    (hrun : codeRun s ops = some s') :
    (∀ x bm, bitmapOf s' (x / targetPageSize) = some bm →
      ∀ t, Listed s' (x / targetPageSize) t → (s'.tbs t).toTbInfo.covers x →
        bitSet bm (x % targetPageSize) = true) ∧
    (∀ tab start len i, bitSet (setBits tab start len) i =
      (bitSet tab i || decide (start ≤ i ∧ i < start + len))) ∧
    ∀ start len, len ∈ [1, 2, 4, 8] → start % len = 0 →
      tbInvalidatePhysPageFast s' start len =
          tbInvalidatePhysPageRange s' start (start + len) true ∨
      (tbInvalidatePhysPageFast s' start len = some s' ∧
        ∀ t, Listed s' (start / targetPageSize) t → ∀ x, start ≤ x → x < start + len →
          ¬ (s'.tbs t).toTbInfo.covers x) := by
  obtain ⟨A, h⟩ := codeRun_inv (PageInv.init hs) ops hrun
  refine ⟨fun x bm hbm t ht hx => h.bitSet_of_covers hbm ht hx, bitSet_setBits,
    fun start len hlen hal => h.shortcut ?_⟩
  simp only [List.mem_cons, List.not_mem_nil, or_false] at hlen
  obtain rfl | rfl | rfl | rfl := hlen <;> omega

/-- Ten stores beside the code of a page, after which the page has a bitmap. -/
def writtenOften : List CodeOp :=
  .tb (.genCode (crossingBlock 3 5)) :: List.replicate 10 (.store (3 * 1024) 4)

/-- A page that is written until it gets a bitmap. -/
theorem code_bitmap_covers_writtenOften :
    ∃ s', codeRun startState writtenOften = some s' ∧ (bitmapOf s' 3).isSome ∧
      (∀ x bm, bitmapOf s' (x / targetPageSize) = some bm →
        ∀ t, Listed s' (x / targetPageSize) t → (s'.tbs t).toTbInfo.covers x →
          bitSet bm (x % targetPageSize) = true) ∧
      (∀ tab start len i, bitSet (setBits tab start len) i =
        (bitSet tab i || decide (start ≤ i ∧ i < start + len))) ∧
      ∀ start len, len ∈ [1, 2, 4, 8] → start % len = 0 →
        tbInvalidatePhysPageFast s' start len =
            tbInvalidatePhysPageRange s' start (start + len) true ∨
        (tbInvalidatePhysPageFast s' start len = some s' ∧
          ∀ t, Listed s' (start / targetPageSize) t → ∀ x, start ≤ x → x < start + len →
            ¬ (s'.tbs t).toTbInfo.covers x) := by
  have hends : ((codeRun startState writtenOften).map fun s => (bitmapOf s 3).isSome) =
      some true := by decide +kernel
  obtain ⟨s', hrun, hbm⟩ := Option.map_eq_some_iff.mp hends
  exact ⟨s', hrun, hbm, code_bitmap_covers startState_init _ hrun⟩

end Qemu.Exec
