import Qemu.Exec.TbInvalidate

namespace Qemu.Exec

open Qemu.Lib Function

/-!
# Linking a block, chaining jumps, flushing

* `tbLinkPhys_spec` — `tb_link_phys` puts a new block in front of its hash chain and of the list
  of each of its pages, page `0` first, with no jumps in or out;
* `tbAddJump_spec` — `tb_add_jump` between linked blocks chains a slot that is not chained yet;
* `tbFlush_spec` — `tb_flush` leaves every list empty.
-/

/-! ### The lists -/

/-- A link put in front of the list of a page. -/
def TbLists.pushPage (A : TbLists) (v : TbPtr) (p : ℕ) : TbLists :=
  { A with page := update A.page p (v :: A.page p) }

theorem pushPage_page (A : TbLists) (v : TbPtr) (p q : ℕ) :
    (A.pushPage v p).page q = if q = p then v :: A.page q else A.page q := by
  unfold TbLists.pushPage
  by_cases h : q = p
  · subst h; simp
  · simp [h]

/-- A block put in front of its chain and page lists, without jumps. -/
def TbLists.link (A : TbLists) (t : ℕ) (tb : TbInfo) : TbLists where
  valid := insert t A.valid
  hash := update A.hash (tbPhysHashFunc tb.physPc)
    (t :: A.hash (tbPhysHashFunc tb.physPc))
  page p := (if slotPage tb 1 = some p then [⟨t, 1⟩] else []) ++
    ((if slotPage tb 0 = some p then [⟨t, 0⟩] else []) ++ A.page p)
  jmp := update A.jmp t []

/-! ### One page -/

/-- What linking leaves alone of the blocks and the memory: everything but the page addresses
    of `t`, and code flags that get cleared. -/
structure LinkFrame (t : ℕ) (s s' : ExecState) : Prop where
  info : ∀ u ≠ t, (s'.tbs u).toTbInfo = (s.tbs u).toTbInfo
  pc : (s'.tbs t).pc = (s.tbs t).pc
  size : (s'.tbs t).size = (s.tbs t).size
  tcPtr : (s'.tbs t).tcPtr = (s.tbs t).tcPtr
  tbNextOffset : (s'.tbs t).tbNextOffset = (s.tbs t).tbNextOffset
  nbTbs : s'.nbTbs = s.nbTbs
  maxBlocks : s'.codeGenMaxBlocks = s.codeGenMaxBlocks
  buffer : s'.codeGenBuffer = s.codeGenBuffer
  maxSize : s'.codeGenBufferMaxSize = s.codeGenBufferMaxSize
  dirty : ∀ p, s'.physRamDirty p = s.physRamDirty p ∨
    s'.physRamDirty p = s.physRamDirty p &&& ~~~codeDirtyFlag

/-- What linking in a page leaves alone besides: hash chains and jumps. -/
structure PageFrame (t : ℕ) (s s' : ExecState) : Prop extends LinkFrame t s s' where
  hash : SameHash s s'
  jmp : SameJmp s s'

theorem and_not_and_codeDirtyFlag (x : BitVec 8) :
    (x &&& ~~~codeDirtyFlag) &&& ~~~codeDirtyFlag = x &&& ~~~codeDirtyFlag := by
  rw [BitVec.and_assoc, BitVec.and_self]

variable {s s' : ExecState} {t : ℕ}

theorem LinkFrame.trans {s'' : ExecState} (h : LinkFrame t s s') (h' : LinkFrame t s' s'') :
    LinkFrame t s s'' where
  info u hu := (h'.info u hu).trans (h.info u hu)
  pc := h'.pc.trans h.pc
  size := h'.size.trans h.size
  tcPtr := h'.tcPtr.trans h.tcPtr
  tbNextOffset := h'.tbNextOffset.trans h.tbNextOffset
  nbTbs := h'.nbTbs.trans h.nbTbs
  maxBlocks := h'.maxBlocks.trans h.maxBlocks
  buffer := h'.buffer.trans h.buffer
  maxSize := h'.maxSize.trans h.maxSize
  dirty p := by
    rcases h.dirty p with h₁ | h₁ <;> rcases h'.dirty p with h₂ | h₂
    · exact .inl (h₂.trans h₁)
    · exact .inr (by rw [h₂, h₁])
    · exact .inr (by rw [h₂, h₁])
    · exact .inr (by rw [h₂, h₁, and_not_and_codeDirtyFlag])

theorem SameInfo.linkFrame (h : SameInfo s s') (t : ℕ) (hdirty : s'.physRamDirty = s.physRamDirty) :
    LinkFrame t s s' := by
  refine ⟨fun u _ => h.info u, ?_, ?_, ?_, ?_, h.nbTbs, h.maxBlocks, h.buffer, h.maxSize,
    fun p => .inl (by rw [hdirty])⟩ <;> rw [h.info t]

theorem PageFrame.trans {s'' : ExecState} (h : PageFrame t s s') (h' : PageFrame t s' s'') :
    PageFrame t s s'' :=
  ⟨h.toLinkFrame.trans h'.toLinkFrame, h.hash.trans h'.hash, h.jmp.trans h'.jmp⟩

theorem PageFrame.setL1Map (s : ExecState) (t : ℕ) (m : ℕ → Option (ℕ → PageDesc)) :
    PageFrame t s { s with l1Map := m } :=
  ⟨⟨fun _ _ => rfl, rfl, rfl, rfl, rfl, rfl, rfl, rfl, rfl, fun _ => .inl rfl⟩, ⟨rfl, rfl⟩,
    ⟨rfl, fun _ => rfl⟩⟩

theorem pageAlloc_eq (s : ExecState) (i : ℕ) : ∃ m, pageAlloc s i = { s with l1Map := m } := by
  unfold pageAlloc
  split
  · exact ⟨s.l1Map, rfl⟩
  · exact ⟨_, rfl⟩

theorem PageFrame.protect (s : ExecState) (t a : ℕ) : PageFrame t s (tlbProtectCode s a) := by
  refine ⟨⟨fun _ _ => rfl, rfl, rfl, rfl, rfl, rfl, rfl, rfl, rfl, fun p => ?_⟩, ⟨rfl, rfl⟩,
    ⟨rfl, fun _ => rfl⟩⟩
  by_cases hp : p = a / targetPageSize
  · subst hp; exact .inr (by simp [tlbProtectCode])
  · exact .inl (by simp [tlbProtectCode, hp])

theorem PageFrame.setPageNext (s : ExecState) (t n : ℕ) (x : Option TbPtr) : PageFrame t s
    (modTb s t (fun tb => { tb with pageNext := update tb.pageNext n x })) :=
  ⟨SameInfo.linkFrame (by exact .modTb s t (fun _ => rfl)) t rfl, .modTb s t (fun _ => rfl),
    .modTb s t (fun _ => rfl) (fun _ => rfl) (fun _ => rfl)⟩

theorem PageFrame.setPageAddr (s : ExecState) (t n a : ℕ) : PageFrame t s
    (modTb s t (fun tb => { tb with pageAddr := update tb.pageAddr n a })) where
  hash := .modTb s t (fun _ => rfl)
  jmp := .modTb s t (fun _ => rfl) (fun _ => rfl) (fun _ => rfl)
  info u hu := by rw [modTb_of_ne _ _ hu]
  pc := by rw [modTb_self]
  size := by rw [modTb_self]
  tcPtr := by rw [modTb_self]
  tbNextOffset := by rw [modTb_self]
  nbTbs := rfl
  maxBlocks := rfl
  buffer := rfl
  maxSize := rfl
  dirty _ := .inl rfl

theorem LinkFrame.bitmapRange (h : LinkFrame t s s') (v : TbPtr) :
    bitmapRange s' v = bitmapRange s v := by
  unfold Exec.bitmapRange
  by_cases hv : v.tb = t
  · rw [hv, h.pc, h.size]
  · rw [h.info _ hv]

theorem clean_and_not (x : BitVec 8) : (x &&& ~~~codeDirtyFlag) &&& codeDirtyFlag = 0#8 := by
  rw [BitVec.and_assoc]
  simp

/-- What `tb_alloc_page` changes: the address and the link of the slot, the head of the list of the
    page, whose bitmap is dropped, and the code flag of a page that had no block. -/
structure PageAllocated (s : ExecState) (t n a : ℕ) (s' : ExecState) : Prop
    extends PageFrame t s s' where
  addr : (s'.tbs t).pageAddr = update (s.tbs t).pageAddr n a
  next : pageNext s' = update (pageNext s) ⟨t, n⟩ (firstTb s (a / targetPageSize))
  first : ∀ q, firstTb s' q = if q = a / targetPageSize then some ⟨t, n⟩ else firstTb s q
  bitmap : ∀ q, bitmapOf s' q = if q = a / targetPageSize then none else bitmapOf s q
  protects : ∀ q, s'.physRamDirty q =
    if q = a / targetPageSize ∧ (firstTb s q).isNone then s.physRamDirty q &&& ~~~codeDirtyFlag
    else s.physRamDirty q

/-- `tb_alloc_page` up to the protection of the page. -/
theorem tbAllocPage_pushed (s : ExecState) (t n a : ℕ) :
    ∃ s', tbAllocPage s t n a =
        some (if (firstTb s (a / targetPageSize)).isNone then tlbProtectCode s' a else s') ∧
      PageFrame t s s' ∧ s'.physRamDirty = s.physRamDirty ∧
      (s'.tbs t).pageAddr = update (s.tbs t).pageAddr n a ∧
      pageNext s' = update (pageNext s) ⟨t, n⟩ (firstTb s (a / targetPageSize)) ∧
      (∀ q, firstTb s' q = if q = a / targetPageSize then some ⟨t, n⟩ else firstTb s q) ∧
      ∀ q, bitmapOf s' q = if q = a / targetPageSize then none else bitmapOf s q := by
  set p := a / targetPageSize with hp
  let s₁ := modTb s t (fun tb => { tb with pageAddr := update tb.pageAddr n a })
  let s₂ := pageAlloc s₁ p
  let d := (pageFind s p).getD PageDesc.zero
  have hd : pageFind s₂ p = some d := pageFind_pageAlloc_self s₁ p
  have hfirst : d.firstTb = firstTb s p := by
    simp only [d, firstTb]
    cases pageFind s p <;> rfl
  let s₃ := modTb s₂ t (fun tb => { tb with pageNext := update tb.pageNext n d.firstTb })
  let s₄ := modPage s₃ p (fun p => { p with firstTb := some ⟨t, n⟩ })
  let s₅ := invalidatePageBitmap s₄ p
  -- the page descriptor is there or is allocated; nothing else changes
  obtain ⟨m, hs₂⟩ : ∃ m, s₂ = { s₁ with l1Map := m } := pageAlloc_eq s₁ p
  have h₃ : pageFind s₃ p = some d := hd
  refine ⟨s₅, ?_, ?_, ?_, ?_, ?_, fun q => ?_, fun q => ?_⟩
  · unfold tbAllocPage
    show (do
      let p' ← pageFind s₂ p
      let s := modTb s₂ t (fun t => { t with pageNext := update t.pageNext n p'.firstTb })
      let s := modPage s p (fun p => { p with firstTb := some ⟨t, n⟩ })
      let s := invalidatePageBitmap s p
      some (if p'.firstTb.isNone then tlbProtectCode s a else s)) = _
    rw [hd, ← hfirst]
    rfl
  · have h₂ : PageFrame t s s₂ := by
      rw [hs₂]
      exact (PageFrame.setPageAddr s t n a).trans (.setL1Map s₁ t m)
    exact ((h₂.trans (.setPageNext s₂ t n _)).trans (.setL1Map s₃ t _)).trans (.setL1Map s₄ t _)
  · show s₂.physRamDirty = _
    rw [hs₂]
    rfl
  · show (s₃.tbs t).pageAddr = _
    simp [s₃, hs₂, s₁]
  · rw [← hfirst]
    funext v
    obtain ⟨u, k⟩ := v
    show (s₃.tbs u).pageNext k = _
    by_cases hu : u = t
    · subst hu
      by_cases hk : k = n
      · subst hk; simp [s₃, update_self]
      · simp [s₃, hs₂, s₁, hk, pageNext]
    · simp [s₃, hs₂, s₁, hu, pageNext]
  · have h₅ : SamePage s₄ s₅ := .modPage s₄ p (fun _ => rfl)
    rw [h₅.head]
    by_cases hq : q = p
    · simp [s₄, firstTb, pageFind_modPage, h₃, hq]
    · rw [if_neg hq]
      have h₄ : firstTb s₄ q = firstTb s₂ q := by simp [s₄, firstTb, pageFind_modPage, hq]; rfl
      rw [h₄]
      exact firstTb_pageAlloc s₁ p q
  · by_cases hq : q = p
    · simp [s₅, s₄, invalidatePageBitmap, bitmapOf, pageFind_modPage, h₃, hq]
    · rw [if_neg hq]
      have h₅ : bitmapOf s₅ q = bitmapOf s₂ q := by
        simp [s₅, s₄, invalidatePageBitmap, bitmapOf, pageFind_modPage, hq]; rfl
      rw [h₅]
      exact bitmapOf_pageAlloc s₁ p q

/-- `tb_alloc_page` does not fault. -/
theorem tbAllocPage_allocated (s : ExecState) (t n a : ℕ) :
    ∃ s', tbAllocPage s t n a = some s' ∧ PageAllocated s t n a s' := by
  obtain ⟨s', hrun, hframe, hdirty, haddr, hnext, hfirst, hbitmap⟩ := tbAllocPage_pushed s t n a
  refine ⟨_, hrun, ?_⟩
  by_cases hnone : (firstTb s (a / targetPageSize)).isNone = true
  · rw [if_pos hnone]
    refine ⟨hframe.trans (.protect s' t a), haddr, hnext, hfirst, hbitmap, fun q => ?_⟩
    by_cases hq : q = a / targetPageSize
    · rw [if_pos ⟨hq, hq ▸ hnone⟩, hq]
      simp [tlbProtectCode, hdirty]
    · rw [if_neg fun h => hq h.1]
      simp [tlbProtectCode, hq, hdirty]
  · rw [if_neg hnone]
    refine ⟨hframe, haddr, hnext, hfirst, hbitmap, fun q => ?_⟩
    rw [if_neg, hdirty]
    rintro ⟨rfl, hq⟩
    exact hnone hq

variable {A : TbLists} {n : ℕ}

/-- `tb_alloc_page` pushes the slot on the list of the page and protects the page. -/
theorem tbAllocPage_spec {a : ℕ} (hseg : ∀ p, Seg (pageNext s) (firstTb s p) (A.page p) none)
    (hm : TbMem s A) (hfresh : ∀ p, (⟨t, n⟩ : TbPtr) ∉ A.page p) :
    ∃ s', tbAllocPage s t n a = some s' ∧ PageFrame t s s' ∧
      (s'.tbs t).pageAddr = update (s.tbs t).pageAddr n a ∧
      (∀ p, Seg (pageNext s') (firstTb s' p) ((A.pushPage ⟨t, n⟩ (a / targetPageSize)).page p)
        none) ∧ TbMem s' (A.pushPage ⟨t, n⟩ (a / targetPageSize)) := by
  obtain ⟨s', hrun, h⟩ := tbAllocPage_allocated s t n a
  have hsame : ∀ q, ∀ v ∈ A.page q, pageNext s' v = pageNext s v := by
    intro q v hv
    rw [h.next, update_of_ne]
    rintro rfl
    exact hfresh q hv
  refine ⟨s', hrun, h.toPageFrame, h.addr, fun q => ?_, ⟨fun q hq => ?_,
    fun q bm hbm v hv i hlo hhi => ?_⟩⟩
  · rw [h.first, pushPage_page]
    split_ifs with hq
    · have hhead : pageNext s' ⟨t, n⟩ = firstTb s q := by rw [h.next, update_self, hq]
      refine ⟨rfl, ?_⟩
      rw [hhead]
      exact (hseg q).congr (hsame q)
    · exact (hseg q).congr (hsame q)
  -- a page that had no block is protected now
  · rw [h.protects]
    split_ifs with hfirst
    · exact clean_and_not _
    · refine hm.clean q fun hnil => ?_
      have hnone : firstTb s q = none := by rw [(hseg q).head_eq, hnil]; rfl
      refine hfirst ⟨by_contra fun hqp => ?_, hnone ▸ rfl⟩
      rw [pushPage_page, if_neg hqp] at hq
      exact hq hnil
  · rw [h.bitmap] at hbm
    split_ifs at hbm with hqp
    rw [pushPage_page, if_neg hqp] at hv
    rw [h.bitmapRange] at hlo hhi
    exact hm.bitmap q bm hbm v hv i hlo hhi

/-! ### Both pages -/

variable {tb : TbInfo}

theorem slotPage_zero {a : ℕ} (h : tb.pageAddr 0 = a) (ha : a ≠ noPage) :
    slotPage tb 0 = some (a / targetPageSize) := by simp [slotPage, h, ha]

theorem pageMask_ne_noPage (a : ℕ) : pageMask a ≠ noPage := by
  unfold pageMask noPage targetPageSize
  omega

/-- The page part of `tb_link_phys`. -/
theorem tbLinkPages_spec (physPc physPage2 : ℕ)
    (hseg : ∀ p, Seg (pageNext s) (firstTb s p) (A.page p) none) (hm : TbMem s A)
    (hfresh : ∀ p, ∀ v ∈ A.page p, v.tb ≠ t) :
    ∃ s', tbLinkPages s t physPc physPage2 = some s' ∧ PageFrame t s s' ∧
      (s'.tbs t).pageAddr 0 = pageMask physPc ∧ (s'.tbs t).pageAddr 1 = physPage2 ∧
      (∀ p, Seg (pageNext s') (firstTb s' p) (slotLinks (s'.tbs t).toTbInfo t p ++ A.page p) none) ∧
      TbMem s' { A with page := fun p => slotLinks (s'.tbs t).toTbInfo t p ++ A.page p } := by
  obtain ⟨s₁, hrun₁, hf₁, ha₁, hseg₁, hm₁⟩ := tbAllocPage_spec (t := t) (n := 0)
    (a := pageMask physPc) hseg hm (fun p hv => hfresh p _ hv rfl)
  set p₀ := pageMask physPc / targetPageSize with hp₀
  have ha₁0 : (s₁.tbs t).pageAddr 0 = pageMask physPc := by rw [ha₁]; simp
  unfold tbLinkPages
  rw [hrun₁]
  simp only [Option.bind_eq_bind, Option.bind_some]
  -- a block on two pages enters the lists of both
  by_cases h2 : physPage2 ≠ noPage
  · rw [if_pos h2]
    obtain ⟨s₂, hrun₂, hf₂, ha₂, hseg₂, hm₂⟩ := tbAllocPage_spec (t := t) (n := 1)
      (a := physPage2) hseg₁ hm₁ (fun p hv => by
        rw [pushPage_page] at hv
        by_cases hp : p = p₀
        · rw [if_pos hp] at hv
          rcases List.mem_cons.mp hv with h | h
          · simp at h
          · exact hfresh p _ h rfl
        · rw [if_neg hp] at hv
          exact hfresh p _ hv rfl)
    have h0 : (s₂.tbs t).pageAddr 0 = pageMask physPc := by rw [ha₂, ← ha₁0]; simp
    have h1 : (s₂.tbs t).pageAddr 1 = physPage2 := by rw [ha₂]; simp
    have hlist : ∀ p, ((A.pushPage ⟨t, 0⟩ p₀).pushPage ⟨t, 1⟩ (physPage2 / targetPageSize)).page p =
        slotLinks (s₂.tbs t).toTbInfo t p ++ A.page p := by
      intro p
      have hs0 := slotPage_zero h0 (pageMask_ne_noPage physPc)
      have hs1 : slotPage (s₂.tbs t).toTbInfo 1 = some (physPage2 / targetPageSize) := by
        simp [slotPage, h1, h2]
      rw [pushPage_page, pushPage_page]
      unfold slotLinks
      rw [hs0, hs1, ← hp₀]
      simp only [Option.some.injEq, eq_comm (a := p)]
      split_ifs <;> rfl
    exact ⟨s₂, hrun₂, hf₁.trans hf₂, h0, h1, fun p => hlist p ▸ hseg₂ p,
      hm₂.congr rfl (fun _ => rfl) (fun _ _ _ => rfl) (fun p => (hlist p).symm)⟩
  · rw [if_neg h2]
    rw [not_not] at h2
    set s₂ := modTb s₁ t (fun tb => { tb with pageAddr := update tb.pageAddr 1 noPage })
      with hs₂
    have hf₂ : PageFrame t s₁ s₂ := .setPageAddr s₁ t 1 noPage
    have hp₂ : SamePage s₁ s₂ := .modTb s₁ t (fun _ => rfl)
    have h0 : (s₂.tbs t).pageAddr 0 = pageMask physPc := by rw [← ha₁0]; simp [hs₂]
    have h1 : (s₂.tbs t).pageAddr 1 = physPage2 := by rw [h2]; simp [hs₂]
    have hlist : ∀ p, (A.pushPage ⟨t, 0⟩ p₀).page p =
        slotLinks (s₂.tbs t).toTbInfo t p ++ A.page p := by
      intro p
      have hs0 := slotPage_zero h0 (pageMask_ne_noPage physPc)
      have hs1 : slotPage (s₂.tbs t).toTbInfo 1 = none := by simp [slotPage, h1, h2]
      rw [pushPage_page]
      unfold slotLinks
      rw [hs0, hs1, ← hp₀]
      simp only [Option.some.injEq, eq_comm (a := p)]
      split_ifs <;> simp_all
    refine ⟨s₂, rfl, hf₁.trans hf₂, h0, h1, fun p => ?_,
      hm₁.congr rfl (fun _ => rfl) (fun _ v _ => hf₂.bitmapRange v) (fun p => (hlist p).symm)⟩
    rw [hp₂.next, hp₂.head, ← hlist]
    exact hseg₁ p

/-! ### The jumps -/

/-- The jump part of `tb_link_phys`: no jumps in, both slots reset. -/
theorem tbInitJumps_spec (s : ExecState) (t : ℕ) :
    JmpFrame s (tbInitJumps s t) ∧
      (∀ v : TbPtr, v.tb ≠ t → jmpNext (tbInitJumps s t) v = jmpNext s v) ∧
      (∀ u ≠ t, ((tbInitJumps s t).tbs u).tbNext = (s.tbs u).tbNext) ∧
      jmpNext (tbInitJumps s t) ⟨t, 2⟩ = some ⟨t, 2⟩ ∧
      ∀ n < 2, jmpNext (tbInitJumps s t) ⟨t, n⟩ = none ∧ jumpReset (tbInitJumps s t) ⟨t, n⟩ := by
  let s₁ := modTb s t (fun tb => { tb with
    jmpFirst := some ⟨t, 2⟩
    jmpNext := update (update tb.jmpNext 0 none) 1 none })
  have hf₁ : JmpFrame s s₁ := ⟨.modTb s t (fun _ => rfl), .modTb s t (fun _ => rfl),
    .modTb s t (fun _ => rfl), .modTb s t _⟩
  let reset (s : ExecState) (n : ℕ) : ExecState :=
    if (s.tbs t).tbNextOffset n ≠ 0xffff then tbResetJump s t n else s
  have hrun : tbInitJumps s t = reset (reset s₁ 0) 1 := rfl
  -- resetting a slot changes only its own jump target
  have hstep : ∀ s n, JmpFrame s (reset s n) ∧ jmpNext (reset s n) = jmpNext s ∧
      (∀ u ≠ t, ((reset s n).tbs u).tbNext = (s.tbs u).tbNext) ∧
      (∀ m ≠ n, ((reset s n).tbs t).tbNext m = (s.tbs t).tbNext m) ∧
      jumpReset (reset s n) ⟨t, n⟩ := by
    intro s n
    by_cases h : (s.tbs t).tbNextOffset n ≠ 0xffff
    · simp only [reset, if_pos h]
      refine ⟨.tbResetJump s t n, ?_, fun u hu => ?_, fun m hm => ?_, fun _ => ?_⟩
      · funext v
        by_cases hv : v.tb = t
        · simp [tbResetJump, tbSetJmpTarget, jmpNext, hv]
        · simp [tbResetJump, tbSetJmpTarget, jmpNext, hv]
      · simp [tbResetJump, tbSetJmpTarget, hu]
      · simp [tbResetJump, tbSetJmpTarget, hm]
      · simp [tbResetJump, tbSetJmpTarget]
    · simp only [reset, if_neg h]
      exact ⟨.refl s, trivial, fun _ _ => trivial, fun _ _ => trivial, fun h' => absurd h' h⟩
  obtain ⟨hfa, hna, hua, _, hra⟩ := hstep s₁ 0
  obtain ⟨hfb, hnb, hub, hkb, hrb⟩ := hstep (reset s₁ 0) 1
  have hnext : jmpNext (tbInitJumps s t) = jmpNext s₁ := by rw [hrun, hnb, hna]
  rw [hrun] at hnext ⊢
  refine ⟨(hf₁.trans hfa).trans hfb, fun v hv => ?_, fun u hu => ?_, ?_, fun n hn => ⟨?_, ?_⟩⟩
  · rw [hnext]
    simp [jmpNext, s₁, hv]
  · rw [hub u hu, hua u hu]
    simp [s₁, hu]
  · rw [hnext]
    simp [jmpNext, s₁]
  · rw [hnext]
    have h01 : n = 0 ∨ n = 1 := by omega
    rcases h01 with rfl | rfl <;> simp [jmpNext, s₁]
  · have h01 : n = 0 ∨ n = 1 := by omega
    rcases h01 with rfl | rfl
    · intro hoff
      rw [hkb 0 (by simp)]
      have hinfo := hfb.info.info t
      rw [hinfo] at hoff ⊢
      exact hra hoff
    · exact hrb

/-! ### The whole link -/

theorem link_page (A : TbLists) (t : ℕ) (tb : TbInfo) (p : ℕ) :
    (A.link t tb).page p = slotLinks tb t p ++ A.page p := by
  simp [TbLists.link, slotLinks, List.append_assoc]

theorem pageMask_add_mod (a : ℕ) : pageMask a + a % targetPageSize = a := by
  unfold pageMask
  rw [Nat.mul_comm]
  exact Nat.div_add_mod a targetPageSize

/-- The page lists of a new block are in order. -/
theorem PageTbsWf.link (hw : PageTbsWf s A) (hf : LinkFrame t s s') (ht : t ∉ A.valid)
    (hlt : t < s.nbTbs) (h0 : (s'.tbs t).pageAddr 0 ≠ noPage) :
    PageTbsWf s' (A.link t (s'.tbs t).toTbInfo) := by
  have hne : ∀ {u}, u ∈ A.valid → u ≠ t := fun hu h => ht (h ▸ hu)
  have hvalid : ∀ {u}, u ∈ (A.link t (s'.tbs t).toTbInfo).valid ↔ u = t ∨ u ∈ A.valid :=
    Finset.mem_insert
  constructor
  case lt =>
    intro u hu
    rw [hf.nbTbs]
    rcases hvalid.mp hu with rfl | hu
    · exact hlt
    · exact hw.lt u hu
  case page0 =>
    intro u hu
    rcases hvalid.mp hu with rfl | hu
    · exact h0
    · rw [hf.info u (hne hu)]; exact hw.page0 u hu
  case pageNodup =>
    intro p
    rw [link_page]
    refine List.nodup_append.mpr ⟨slotLinks_nodup _ _ _, hw.pageNodup p, ?_⟩
    rintro v hv _ hv' rfl
    exact hne ((hw.memPage p v).mp hv').1 (mem_slotLinks.mp hv).1
  case memPage =>
    intro p v
    rw [link_page, List.mem_append, mem_slotLinks, hw.memPage, hvalid]
    by_cases hv : v.tb = t
    · rw [hv]
      simp only [true_and, ht, false_and, or_false]
    · rw [hf.info _ hv]
      simp only [hv, false_and, false_or]

variable {u : ℕ}

theorem mem_link_valid : u ∈ (A.link t tb).valid ↔ u = t ∨ u ∈ A.valid := Finset.mem_insert

theorem link_jmp_self (A : TbLists) (t : ℕ) (tb : TbInfo) : (A.link t tb).jmp t = [] :=
  update_self _ _ _

theorem link_jmp_of_ne (A : TbLists) {o : ℕ} (tb : TbInfo) (h : o ≠ t) :
    (A.link t tb).jmp o = A.jmp o := update_of_ne h _ _

theorem link_hash (A : TbLists) (t : ℕ) (tb : TbInfo) (h : ℕ) : (A.link t tb).hash h =
    if h = tbPhysHashFunc tb.physPc then t :: A.hash h else A.hash h := by
  unfold TbLists.link
  split_ifs with hh
  · subst hh
    exact update_self _ _ _
  · exact update_of_ne hh _ _

/-- A block in front of its hash chain. -/
theorem seg_link_hash (hr : ∀ h, Seg (hashNext s) (s.tbPhysHash h) (A.hash h) none)
    (ht : ∀ h, t ∉ A.hash h) (hnext : ∀ u ≠ t, hashNext s' u = hashNext s u)
    (hself : hashNext s' t = s.tbPhysHash (tbPhysHashFunc tb.physPc))
    (hhead : s'.tbPhysHash = update s.tbPhysHash (tbPhysHashFunc tb.physPc) (some t))
    (h : ℕ) : Seg (hashNext s') (s'.tbPhysHash h) ((A.link t tb).hash h) none := by
  have hsame : ∀ u ∈ A.hash h, hashNext s' u = hashNext s u := by
    intro u hu
    refine hnext u ?_
    rintro rfl
    exact ht h hu
  rw [hhead, link_hash]
  split_ifs with hh
  · subst hh
    rw [update_self]
    refine ⟨rfl, ?_⟩
    rw [hself]
    exact (hr _).congr hsame
  · rw [update_of_ne hh]
    exact (hr h).congr hsame

/-- The lists with a new block are in order, if the jumps of the block are reset and all others are
    as they were. -/
theorem TbWf.link (hw : TbWf s A) (hf : LinkFrame t s s') (ht : t ∉ A.valid) (hlt : t < s.nbTbs)
    (h0 : (s'.tbs t).pageAddr 0 ≠ noPage) (htgt : ∀ u ≠ t, (s'.tbs u).tbNext = (s.tbs u).tbNext)
    (hjmp : ∀ v : TbPtr, v.tb ≠ t → jmpNext s' v = jmpNext s v)
    (hself : ∀ n < 2, jmpNext s' ⟨t, n⟩ = none ∧ jumpReset s' ⟨t, n⟩) :
    TbWf s' (A.link t (s'.tbs t).toTbInfo) := by
  have hpw : PageTbsWf s' (A.link t (s'.tbs t).toTbInfo) := hw.pageWf.link hf ht hlt h0
  have hne : ∀ {u}, u ∈ A.valid → u ≠ t := fun hu h => ht (h ▸ hu)
  have hnew : ∀ h, t ∉ A.hash h := fun h hm => ht ((hw.memHash h t).mp hm).1
  constructor
  case lt => exact hpw.lt
  case page0 => exact hpw.page0
  case hashNodup =>
    intro h
    rw [link_hash]
    split_ifs
    · exact List.nodup_cons.mpr ⟨hnew h, hw.hashNodup h⟩
    · exact hw.hashNodup h
  case memHash =>
    intro h u
    have hmem : u ∈ (A.link t (s'.tbs t).toTbInfo).hash h ↔
        (u = t ∧ h = tbPhysHashFunc (s'.tbs t).physPc) ∨ u ∈ A.hash h := by
      rw [link_hash]
      split_ifs with hh <;> simp [hh]
    rw [mem_link_valid, hmem, hw.memHash]
    by_cases hu : u = t
    · rw [hu]
      simp only [true_and, ht, false_and, or_false]
      exact eq_comm
    · rw [hf.info u hu]
      simp only [hu, false_and, false_or]
  case pageNodup => exact hpw.pageNodup
  case memPage => exact hpw.memPage
  case jmpNodup =>
    intro o ho
    rcases mem_link_valid.mp ho with rfl | ho
    · rw [link_jmp_self]; exact List.nodup_nil
    · rw [link_jmp_of_ne A _ (hne ho)]; exact hw.jmpNodup o ho
  case jmpMem =>
    intro o ho v hv
    rcases mem_link_valid.mp ho with rfl | ho
    · rw [link_jmp_self] at hv; exact absurd hv (by simp)
    · rw [link_jmp_of_ne A _ (hne ho)] at hv
      obtain ⟨hvv, hn, htg⟩ := hw.jmpMem o ho v hv
      refine ⟨mem_link_valid.mpr (.inr hvv), hn, ?_⟩
      rw [htgt _ (hne hvv), hf.info o (hne ho)]
      exact htg
  case jmpDisj =>
    intro o ho o' ho' v hv hv'
    rcases mem_link_valid.mp ho with rfl | ho
    · rw [link_jmp_self] at hv; exact absurd hv (by simp)
    rcases mem_link_valid.mp ho' with rfl | ho'
    · rw [link_jmp_self] at hv'; exact absurd hv' (by simp)
    rw [link_jmp_of_ne A _ (hne ho)] at hv
    rw [link_jmp_of_ne A _ (hne ho')] at hv'
    exact hw.jmpDisj o ho o' ho' v hv hv'
  case jmpFree =>
    intro v hv hn hout
    rcases mem_link_valid.mp hv with hvt | hv
    · obtain ⟨u, n⟩ := v
      simp only at hvt hn
      subst hvt
      exact hself n hn
    -- an old slot was not in a list before either
    · have hvt := hne hv
      obtain ⟨hfree, hres⟩ := hw.jmpFree v hv hn (fun o ho hm =>
        hout o (mem_link_valid.mpr (.inr ho)) (by rw [link_jmp_of_ne A _ (hne ho)]; exact hm))
      refine ⟨(hjmp v hvt).trans hfree, ?_⟩
      unfold jumpReset
      rw [hf.info _ hvt, htgt _ hvt]
      exact hres

/-- `tb_link_phys` links a new block. -/
theorem tbLinkPhys_spec {physPc : ℕ} (physPage2 : ℕ) (hr : TbRepr s A) (hw : TbWf s A)
    (hm : TbMem s A) (ht : t ∉ A.valid) (hlt : t < s.nbTbs)
    (hpc : physPc % targetPageSize = (s.tbs t).pc % targetPageSize) :
    ∃ s', tbLinkPhys s t physPc physPage2 = some s' ∧ LinkFrame t s s' ∧
      (s'.tbs t).pageAddr 0 = pageMask physPc ∧ (s'.tbs t).pageAddr 1 = physPage2 ∧
      TbRepr s' (A.link t (s'.tbs t).toTbInfo) ∧ TbWf s' (A.link t (s'.tbs t).toTbInfo) ∧
      TbMem s' (A.link t (s'.tbs t).toTbInfo) := by
  -- the hash chain
  set h := tbPhysHashFunc physPc with hh
  let s₁ := modTb s t (fun tb => { tb with physHashNext := s.tbPhysHash h })
  let s₂ : ExecState := { s₁ with tbPhysHash := update s₁.tbPhysHash h (some t) }
  have hi₂ : SameInfo s s₂ := SameInfo.trans (.modTb s t (fun _ => rfl) : SameInfo s s₁)
    ⟨fun _ => rfl, rfl, rfl, rfl, rfl⟩
  have hp₂ : SamePage s s₂ := SamePage.trans (.modTb s t (fun _ => rfl) : SamePage s s₁)
    ⟨rfl, fun _ => rfl⟩
  have hj₂ : SameJmp s s₂ := SameJmp.trans
    (.modTb s t (fun _ => rfl) (fun _ => rfl) (fun _ => rfl) : SameJmp s s₁) ⟨rfl, fun _ => rfl⟩
  have hm₂ : TbMem s₂ A :=
    hm.congr rfl (fun _ => rfl) (fun _ v _ => bitmapRange_congr hi₂ v) (fun _ => rfl)
  -- the page lists
  obtain ⟨s₃, hrun₃, hf₃, h0, h1, hseg₃, hm₃⟩ := tbLinkPages_spec (t := t) physPc physPage2
    (fun p => by rw [hp₂.next, hp₂.head]; exact hr.page p) hm₂
    (fun p v hv hvt => ht (hvt ▸ ((hw.memPage p v).mp hv).1))
  -- the jumps
  obtain ⟨hjf, hjn, hjt, hj2, hj01⟩ := tbInitJumps_spec s₃ t
  set s₄ := tbInitJumps s₃ t with hs₄
  have hframe : LinkFrame t s s₄ :=
    ((hi₂.linkFrame t rfl).trans hf₃.toLinkFrame).trans (hjf.info.linkFrame t hjf.mem.dirty)
  set tb := (s₄.tbs t).toTbInfo with htb
  have htb₃ : tb = (s₃.tbs t).toTbInfo := hjf.info.info t
  have h0' : (s₄.tbs t).pageAddr 0 = pageMask physPc := by rw [← h0, hjf.info.info t]
  have h1' : (s₄.tbs t).pageAddr 1 = physPage2 := by rw [← h1, hjf.info.info t]
  have hphys : tbPhysHashFunc tb.physPc = h := by
    have hpc' : tb.physPc = physPc := by
      show (s₄.tbs t).pageAddr 0 + (s₄.tbs t).pc % targetPageSize = physPc
      rw [h0', hframe.pc, ← hpc, pageMask_add_mod]
    rw [hpc']
  have hpages : ∀ p, (A.link t tb).page p = slotLinks (s₃.tbs t).toTbInfo t p ++ A.page p := by
    intro p
    rw [link_page, htb₃]
  have hne : ∀ {u}, u ∈ A.valid → u ≠ t := fun hu h => ht (h ▸ hu)
  have hjmp : ∀ v : TbPtr, v.tb ≠ t → jmpNext s₄ v = jmpNext s v := by
    intro v hv
    rw [hjn v hv, hf₃.jmp.next, hj₂.next]
  have htgt : ∀ u ≠ t, (s₄.tbs u).tbNext = (s.tbs u).tbNext := by
    intro u hu
    rw [hjt u hu, hf₃.jmp.target, hj₂.target]
  refine ⟨s₄, ?_, hframe, h0', h1', ⟨fun h' => ?_, fun p => ?_, fun o ho => ?_⟩, ?_, ?_⟩
  · show (tbLinkPages s₂ t physPc physPage2).bind (fun s => some (tbInitJumps s t)) = some s₄
    rw [hrun₃]
    rfl
  · rw [hjf.hash.next, hjf.hash.head, hf₃.hash.next, hf₃.hash.head]
    refine seg_link_hash hr.hash (fun h' hm => ht ((hw.memHash h' t).mp hm).1) (fun u hu => ?_)
      ?_ ?_
      h'
    · simp [hashNext, s₂, s₁, hu]
    · rw [hphys]
      simp [hashNext, s₂, s₁]
    · rw [hphys]
      rfl
  · rw [hjf.page.next, hjf.page.head, hpages]
    exact hseg₃ p
  · rcases mem_link_valid.mp ho with rfl | ho
    · rw [link_jmp_self, hj2]
      rfl
    · rw [link_jmp_of_ne A _ (hne ho), hjmp _ (hne ho)]
      exact (hr.jmp o ho).congr (fun v hv => hjmp v (hne (hw.jmpMem o ho v hv).1))
  · exact hw.link hframe ht hlt (h0' ▸ pageMask_ne_noPage physPc) htgt hjmp hj01
  · exact hm₃.shrink hjf.info hjf.mem (fun p v hv => by rw [hpages] at hv; exact hv)

/-! ### Chaining a jump -/

/-- A slot put in front of the list of jumps into `u`. -/
def TbLists.addJump (A : TbLists) (v : TbPtr) (u : ℕ) : TbLists :=
  { A with jmp := update A.jmp u (v :: A.jmp u) }

theorem mem_addJump {v w : TbPtr} {o : ℕ} :
    w ∈ (A.addJump v u).jmp o ↔ (o = u ∧ w = v) ∨ w ∈ A.jmp o := by
  unfold TbLists.addJump
  by_cases ho : o = u
  · subst ho; simp
  · simp [ho]

/-- `tb_add_jump` on a slot that is not chained, between linked blocks. -/
theorem tbAddJump_free (hr : TbRepr s A) (hw : TbWf s A) (ht : t ∈ A.valid) (hu : u ∈ A.valid)
    (hn : n < 2) (hfree : (s.tbs t).jmpNext n = none) :
    TbRepr (tbAddJump s t n u) (A.addJump ⟨t, n⟩ u) ∧
      TbWf (tbAddJump s t n u) (A.addJump ⟨t, n⟩ u) ∧ SameInfo s (tbAddJump s t n u) ∧
      ShrinkMem s (tbAddJump s t n u) := by
  have hn2 : n ≠ 2 := by omega
  let s₁ := tbSetJmpTarget s t n (s.tbs u).tcPtr
  let s₂ := writeJmp s₁ (.next ⟨t, n⟩) (s₁.tbs u).jmpFirst
  let s₃ := writeJmp s₂ (.next ⟨u, 2⟩) (some ⟨t, n⟩)
  have hrun : tbAddJump s t n u = s₃ := by
    unfold tbAddJump
    rw [hfree]
    simp only [Option.isNone_none, if_true, modTb_jmpNext _ _ _ hn2]
    rfl
  rw [hrun]
  have hf₁ : JmpFrame s s₁ := ⟨.modTb s t (fun _ => rfl), .modTb s t (fun _ => rfl),
    .modTb s t (fun _ => rfl), .modTb s t _⟩
  have hf : JmpFrame s s₃ := (hf₁.trans (.writeJmp s₁ _ _)).trans (.writeJmp s₂ _ _)
  have hjmp₁ : jmpNext s₁ = jmpNext s := by
    funext v
    by_cases hv : v.tb = t
    · simp [s₁, tbSetJmpTarget, jmpNext, hv]
    · simp [s₁, tbSetJmpTarget, jmpNext, hv]
  have hx : (s₁.tbs u).jmpFirst = jmpNext s ⟨u, 2⟩ := by rw [← hjmp₁]; rfl
  have hnext : jmpNext s₃ = update (update (jmpNext s) ⟨t, n⟩
      (jmpNext s ⟨u, 2⟩)) ⟨u, 2⟩ (some ⟨t, n⟩) := by
    simp only [s₃, s₂, jmpNext_writeJmp, hjmp₁, hx]
  have htgt : ∀ v : TbPtr, (s₃.tbs v.tb).tbNext v.n =
      if v = ⟨t, n⟩ then (s.tbs u).tcPtr else (s.tbs v.tb).tbNext v.n := by
    intro v
    rw [(writeJmp_same s₂ _ _).2.2.2, (writeJmp_same s₁ _ _).2.2.2]
    obtain ⟨a, b⟩ := v
    by_cases ha : a = t
    · subst ha
      by_cases hb : b = n
      · subst hb; simp [s₁, tbSetJmpTarget]
      · simp [s₁, tbSetJmpTarget, hb]
    · simp [s₁, tbSetJmpTarget, ha]
  -- the slot is in no list, as the lists pass no null link
  have hout : ∀ o ∈ A.valid, (⟨t, n⟩ : TbPtr) ∉ A.jmp o := by
    intro o ho hm
    refine (hr.jmp o ho).next_ne_none hm ?_
    simp [jmpNext, hn2, hfree]
  have howner : ∀ o ∈ A.valid, ∀ o' : ℕ, (⟨o', 2⟩ : TbPtr) ∉ A.jmp o :=
    fun o ho o' hm => absurd (hw.jmpMem o ho _ hm).2.1 (by simp)
  have hsame : ∀ o ∈ A.valid, ∀ v ∈ A.jmp o, jmpNext s₃ v = jmpNext s v := by
    intro o ho v hv
    rw [hnext, update_of_ne, update_of_ne]
    · rintro rfl; exact hout o ho hv
    · rintro rfl; exact howner o ho u hv
  refine ⟨⟨fun h => ?_, fun p => ?_, fun o ho => ?_⟩, ?_, hf.info, hf.mem⟩
  · rw [hf.hash.next, hf.hash.head]; exact hr.hash h
  · rw [hf.page.next, hf.page.head]; exact hr.page p
  · unfold TbLists.addJump
    by_cases hou : o = u
    · subst hou
      simp only [update_self]
      refine ⟨by rw [hnext]; simp, ?_⟩
      have hhead : jmpNext s₃ ⟨t, n⟩ = jmpNext s ⟨o, 2⟩ := by
        rw [hnext, update_of_ne (by simp [hn2]), update_self]
      rw [hhead]
      exact (hr.jmp o ho).congr (hsame o ho)
    · simp only [update_of_ne hou]
      have hhead : jmpNext s₃ ⟨o, 2⟩ = jmpNext s ⟨o, 2⟩ := by
        rw [hnext, update_of_ne (by simp [hou]),
          update_of_ne (by simp [Ne.symm hn2])]
      rw [hhead]
      exact (hr.jmp o ho).congr (hsame o ho)
  · have hinfo : ∀ v, (s₃.tbs v).toTbInfo = (s.tbs v).toTbInfo := hf.info.info
    constructor
    case lt => rw [hf.info.nbTbs]; exact hw.lt
    case page0 => intro o ho; rw [hinfo]; exact hw.page0 o ho
    case hashNodup => exact hw.hashNodup
    case memHash => intro h o; rw [hinfo]; exact hw.memHash h o
    case pageNodup => exact hw.pageNodup
    case memPage => intro p v; rw [hinfo]; exact hw.memPage p v
    case jmpNodup =>
      intro o ho
      unfold TbLists.addJump
      by_cases hou : o = u
      · subst hou
        simp only [update_self]
        exact List.nodup_cons.mpr ⟨hout o ho, hw.jmpNodup o ho⟩
      · simp only [update_of_ne hou]
        exact hw.jmpNodup o ho
    case jmpMem =>
      intro o ho v hv
      rw [htgt, hinfo]
      rcases mem_addJump.mp hv with ⟨rfl, rfl⟩ | hv
      · exact ⟨ht, hn, by rw [if_pos rfl]⟩
      · obtain ⟨hvv, hvn, hvt⟩ := hw.jmpMem o ho v hv
        refine ⟨hvv, hvn, ?_⟩
        rw [if_neg (by rintro rfl; exact hout o ho hv)]
        exact hvt
    case jmpDisj =>
      intro o ho o' ho' v hv hv'
      rcases mem_addJump.mp hv with ⟨rfl, rfl⟩ | hm
      · rcases mem_addJump.mp hv' with ⟨rfl, _⟩ | hm'
        · rfl
        · exact absurd hm' (hout o' ho')
      · rcases mem_addJump.mp hv' with ⟨rfl, rfl⟩ | hm'
        · exact absurd hm (hout o ho)
        · exact hw.jmpDisj o ho o' ho' v hm hm'
    case jmpFree =>
      intro v hv hvn hvout
      have hvt : v ≠ ⟨t, n⟩ := by
        rintro rfl
        exact hvout u hu (mem_addJump.mpr (.inl ⟨rfl, rfl⟩))
      have hv2 : v ≠ ⟨u, 2⟩ := by rintro rfl; exact absurd hvn (by simp)
      obtain ⟨h₁, h₂⟩ := hw.jmpFree v hv hvn
        (fun o ho hm => hvout o ho (mem_addJump.mpr (.inr hm)))
      refine ⟨?_, ?_⟩
      · rw [hnext, update_of_ne hv2, update_of_ne hvt]
        exact h₁
      · unfold jumpReset
        rw [htgt, if_neg hvt, hinfo]
        exact h₂

/-- `tb_add_jump` between linked blocks keeps the lists well formed; it does nothing if the slot
    is chained already. -/
theorem tbAddJump_spec (hr : TbRepr s A) (hw : TbWf s A) (ht : t ∈ A.valid) (hu : u ∈ A.valid)
    (hn : n < 2) :
    ∃ A', TbRepr (tbAddJump s t n u) A' ∧ TbWf (tbAddJump s t n u) A' ∧ A'.valid = A.valid ∧
      A'.page = A.page ∧ SameInfo s (tbAddJump s t n u) ∧ ShrinkMem s (tbAddJump s t n u) := by
  cases hfree : (s.tbs t).jmpNext n with
  | none =>
    obtain ⟨hr', hw', hi', hm'⟩ := tbAddJump_free hr hw ht hu hn hfree
    exact ⟨A.addJump ⟨t, n⟩ u, hr', hw', rfl, rfl, hi', hm'⟩
  | some x =>
    have hrun : tbAddJump s t n u = s := by simp [tbAddJump, hfree]
    rw [hrun]
    exact ⟨A, hr, hw, rfl, rfl, .refl s, .refl s⟩

/-! ### Flushing -/

/-- No block linked. -/
def TbLists.empty : TbLists := ⟨∅, fun _ => [], fun _ => [], fun _ => []⟩

theorem tbEmpty_spec (hhash : ∀ h, s.tbPhysHash h = none) (hpage : ∀ p, firstTb s p = none) :
    TbRepr s TbLists.empty ∧ TbWf s TbLists.empty ∧ TbMem s TbLists.empty := by
  refine ⟨⟨fun h => hhash h, fun p => hpage p, fun t ht => absurd ht (by simp [TbLists.empty])⟩,
    ?_, ⟨fun p hp => absurd rfl hp, fun p bm _ v hv => absurd hv (by simp [TbLists.empty])⟩⟩
  constructor <;> simp [TbLists.empty]

theorem tbFlush_spec (s : ExecState) :
    TbRepr (tbFlush s) TbLists.empty ∧ TbWf (tbFlush s) TbLists.empty ∧
      TbMem (tbFlush s) TbLists.empty := by
  refine tbEmpty_spec (fun _ => rfl) (fun p => ?_)
  unfold tbFlush pageFlushTb firstTb pageFind
  simp only
  cases s.l1Map (p / l2Size) <;> rfl

end Qemu.Exec
