import Qemu.Exec.Tb

namespace Qemu.Exec

open Qemu.Lib

/-!
# The block lists as lists

`TbLists` is what the pointers of `Tb.lean` mean: for every hash value, page and block the list
of blocks, slots and incoming jumps.  `TbRepr s A` says that the pointers of `s` spell the lists
of `A`, and the `…_spec` theorems say what each pointer operation does to the lists: unlinking
erases, linking pushes.  Every spec comes with the frame of the operation, the fields it leaves
alone, as one of the `Same…` relations.
-/

/-- The set of linked blocks and the lists they are linked in. -/
structure TbLists where
  valid : Finset ℕ
  hash : ℕ → List ℕ
  page : ℕ → List TbPtr
  jmp : ℕ → List TbPtr

/-- The lists of the blocks that `K` keeps. -/
def TbLists.keep (A : TbLists) (K : ℕ → Bool) : TbLists where
  valid := A.valid.filter (fun t => K t = true)
  hash h := (A.hash h).filter K
  page p := (A.page p).filter (fun v => K v.tb)
  jmp t := (A.jmp t).filter (fun v => K v.tb)

/-- One block taken out of every list. -/
def TbLists.remove (A : TbLists) (t : ℕ) : TbLists := A.keep (fun u => !(u == t))

theorem keep_keep (A : TbLists) (K L : ℕ → Bool) :
    (A.keep K).keep L = A.keep (fun t => L t && K t) := by
  simp only [TbLists.keep, List.filter_filter, TbLists.mk.injEq, and_true]
  ext t
  simp only [Finset.mem_filter, Bool.and_eq_true]
  tauto

theorem keep_true (A : TbLists) : A.keep (fun _ => true) = A := by
  cases A
  simp only [TbLists.keep, List.filter_true, TbLists.mk.injEq, and_true]
  exact Finset.filter_true_of_mem (fun _ _ => trivial)

variable {t : ℕ}

theorem mem_remove_valid {A : TbLists} {u : ℕ} : u ∈ (A.remove t).valid ↔ u ≠ t ∧ u ∈ A.valid := by
  simp only [TbLists.remove, TbLists.keep, Finset.mem_filter, Bool.not_eq_true',
    beq_eq_false_iff_ne, ne_eq]
  exact and_comm

/-- `first_tb` of a page; null for a page without descriptor. -/
def firstTb (s : ExecState) (index : ℕ) : Option TbPtr :=
  (pageFind s index).bind (fun p => p.firstTb)

/-- The pointers of `s` spell the lists of `A`. -/
structure TbRepr (s : ExecState) (A : TbLists) : Prop where
  hash : ∀ h, Seg (hashNext s) (s.tbPhysHash h) (A.hash h) none
  page : ∀ p, Seg (pageNext s) (firstTb s p) (A.page p) none
  jmp : ∀ t ∈ A.valid, Seg (jmpNext s) (jmpNext s ⟨t, 2⟩) (A.jmp t) (some ⟨t, 2⟩)

/-! ### Frames -/

/-- The hash chains are the same pointers. -/
structure SameHash (s s' : ExecState) : Prop where
  next : hashNext s' = hashNext s
  head : s'.tbPhysHash = s.tbPhysHash

/-- The page lists are the same pointers. -/
structure SamePage (s s' : ExecState) : Prop where
  next : pageNext s' = pageNext s
  head : ∀ p, firstTb s' p = firstTb s p

/-- The jump lists and jump targets are the same. -/
structure SameJmp (s s' : ExecState) : Prop where
  next : jmpNext s' = jmpNext s
  target : ∀ t, (s'.tbs t).tbNext = (s.tbs t).tbNext

/-- The blocks, their number and the bounds are the same. -/
structure SameInfo (s s' : ExecState) : Prop where
  info : ∀ t, (s'.tbs t).toTbInfo = (s.tbs t).toTbInfo
  nbTbs : s'.nbTbs = s.nbTbs
  maxBlocks : s'.codeGenMaxBlocks = s.codeGenMaxBlocks
  buffer : s'.codeGenBuffer = s.codeGenBuffer
  maxSize : s'.codeGenBufferMaxSize = s.codeGenBufferMaxSize

theorem SameHash.refl (s : ExecState) : SameHash s s := ⟨rfl, rfl⟩

theorem SamePage.refl (s : ExecState) : SamePage s s := ⟨rfl, fun _ => rfl⟩

theorem SameJmp.refl (s : ExecState) : SameJmp s s := ⟨rfl, fun _ => rfl⟩

theorem SameInfo.refl (s : ExecState) : SameInfo s s := ⟨fun _ => rfl, rfl, rfl, rfl, rfl⟩

variable {s s' s'' : ExecState}

theorem SameHash.trans (h : SameHash s s') (h' : SameHash s' s'') :
    SameHash s s'' := ⟨h'.next.trans h.next, h'.head.trans h.head⟩

theorem SamePage.trans (h : SamePage s s') (h' : SamePage s' s'') :
    SamePage s s'' := ⟨h'.next.trans h.next, fun p => (h'.head p).trans (h.head p)⟩

theorem SameJmp.trans (h : SameJmp s s') (h' : SameJmp s' s'') :
    SameJmp s s'' := ⟨h'.next.trans h.next, fun t => (h'.target t).trans (h.target t)⟩

theorem SameInfo.trans (h : SameInfo s s') (h' : SameInfo s' s'') : SameInfo s s'' :=
  ⟨fun t => (h'.info t).trans (h.info t), h'.nbTbs.trans h.nbTbs, h'.maxBlocks.trans h.maxBlocks,
    h'.buffer.trans h.buffer, h'.maxSize.trans h.maxSize⟩

@[simp] theorem modTb_self (s : ExecState) (t : ℕ) (f : TranslationBlock → TranslationBlock) :
    (modTb s t f).tbs t = f (s.tbs t) := by simp [modTb]

@[simp] theorem modTb_of_ne (s : ExecState) {u : ℕ} (f : TranslationBlock → TranslationBlock)
    (h : u ≠ t) : (modTb s t f).tbs u = s.tbs u := by simp [modTb, h]

theorem modTb_field {α : Type*} (s : ExecState) (t u : ℕ)
    (f : TranslationBlock → TranslationBlock) (g : TranslationBlock → α)
    (h : ∀ tb, g (f tb) = g tb) : g ((modTb s t f).tbs u) = g (s.tbs u) := by
  by_cases hu : u = t
  · subst hu; rw [modTb_self, h]
  · rw [modTb_of_ne _ _ hu]

variable {f : TranslationBlock → TranslationBlock}

theorem SameHash.modTb (s : ExecState) (t : ℕ) (h : ∀ tb, (f tb).physHashNext = tb.physHashNext) :
    SameHash s (modTb s t f) :=
  ⟨funext fun u => modTb_field s t u f (fun tb => tb.physHashNext) h, rfl⟩

theorem SamePage.modTb (s : ExecState) (t : ℕ) (h : ∀ tb, (f tb).pageNext = tb.pageNext) :
    SamePage s (modTb s t f) :=
  ⟨funext fun u => congrFun (modTb_field s t u.tb f (fun tb => tb.pageNext) h) u.n,
    fun _ => rfl⟩

theorem SameJmp.modTb (s : ExecState) (t : ℕ) (hn : ∀ tb, (f tb).jmpNext = tb.jmpNext)
    (hf : ∀ tb, (f tb).jmpFirst = tb.jmpFirst) (ht : ∀ tb, (f tb).tbNext = tb.tbNext) :
    SameJmp s (modTb s t f) := by
  refine ⟨funext fun u => ?_, fun u => modTb_field s t u f (fun tb => tb.tbNext) ht⟩
  unfold jmpNext
  rw [modTb_field s t u.tb f (fun tb => tb.jmpNext) hn,
    modTb_field s t u.tb f (fun tb => tb.jmpFirst) hf]

theorem SameInfo.modTb (s : ExecState) (t : ℕ) (h : ∀ tb, (f tb).toTbInfo = tb.toTbInfo) :
    SameInfo s (modTb s t f) :=
  ⟨fun u => modTb_field s t u f (fun tb => tb.toTbInfo) h, rfl, rfl, rfl, rfl⟩

/-! ### Page descriptors -/

theorem index_eq {i j : ℕ} (h₁ : i / l2Size = j / l2Size) (h₂ : i % l2Size = j % l2Size) :
    i = j := by
  have hi := Nat.div_add_mod i l2Size
  have hj := Nat.div_add_mod j l2Size
  rw [h₁, h₂] at hi
  exact hi.symm.trans hj

/-- An update of one page. -/
theorem pageFind_modPage (s : ExecState) (i : ℕ) (f : PageDesc → PageDesc) (j : ℕ) :
    pageFind (modPage s i f) j = if j = i then (pageFind s i).map f else pageFind s j := by
  unfold pageFind modPage
  by_cases h₁ : j / l2Size = i / l2Size
  · by_cases h₂ : j % l2Size = i % l2Size
    · have hij : j = i := index_eq h₁ h₂
      subst hij
      cases s.l1Map (j / l2Size) <;> simp
    · have hij : j ≠ i := by rintro rfl; exact h₂ rfl
      rw [if_neg hij]
      simp only [h₁, Function.update_self, Option.map_map]
      cases s.l1Map (i / l2Size) <;> simp [h₂]
  · have hij : j ≠ i := by rintro rfl; exact h₁ rfl
    rw [if_neg hij]
    simp [h₁]

theorem isSome_pageFind_modPage (s : ExecState) (i : ℕ) (f : PageDesc → PageDesc) (j : ℕ) :
    (pageFind (modPage s i f) j).isSome = (pageFind s j).isSome := by
  rw [pageFind_modPage]
  by_cases h : j = i
  · subst h; simp
  · rw [if_neg h]

theorem pageFind_pageAlloc_self (s : ExecState) (i : ℕ) :
    pageFind (pageAlloc s i) i = some ((pageFind s i).getD PageDesc.zero) := by
  unfold pageAlloc pageFind
  cases h : s.l1Map (i / l2Size) <;> simp [h]

theorem pageFind_pageAlloc (s : ExecState) (i j : ℕ) :
    pageFind (pageAlloc s i) j = pageFind s j ∨
      (pageFind s j = none ∧ pageFind (pageAlloc s i) j = some PageDesc.zero) := by
  unfold pageAlloc
  cases h : s.l1Map (i / l2Size) with
  | some a => exact .inl rfl
  | none =>
    by_cases hj : j / l2Size = i / l2Size
    · exact .inr (by simp [pageFind, hj, h])
    · exact .inl (by simp [pageFind, hj])

theorem firstTb_pageAlloc (s : ExecState) (i p : ℕ) : firstTb (pageAlloc s i) p = firstTb s p := by
  unfold firstTb
  rcases pageFind_pageAlloc s i p with h | ⟨h, h'⟩
  · rw [h]
  · rw [h, h']; rfl

theorem firstTb_modPage (s : ExecState) (i : ℕ) (f : PageDesc → PageDesc)
    (hf : ∀ p, (f p).firstTb = p.firstTb) (p : ℕ) : firstTb (modPage s i f) p = firstTb s p := by
  unfold firstTb
  rw [pageFind_modPage]
  by_cases h : p = i
  · subst h
    rw [if_pos rfl]
    cases pageFind s p <;> simp [hf]
  · rw [if_neg h]

theorem SamePage.modPage (s : ExecState) (i : ℕ) {f : PageDesc → PageDesc}
    (hf : ∀ p, (f p).firstTb = p.firstTb) : SamePage s (modPage s i f) :=
  ⟨rfl, firstTb_modPage s i f hf⟩

theorem SameHash.modPage (s : ExecState) (i : ℕ) (f : PageDesc → PageDesc) :
    SameHash s (modPage s i f) := ⟨rfl, rfl⟩

theorem SameJmp.modPage (s : ExecState) (i : ℕ) (f : PageDesc → PageDesc) :
    SameJmp s (modPage s i f) := ⟨rfl, fun _ => rfl⟩

theorem SameInfo.modPage (s : ExecState) (i : ℕ) (f : PageDesc → PageDesc) :
    SameInfo s (modPage s i f) := ⟨fun _ => rfl, rfl, rfl, rfl, rfl⟩

/-! ### Writing a link -/

theorem hashNext_writeHash (s : ExecState) (h : ℕ) (k : Cell ℕ) (x : Option ℕ) :
    hashNext (writeHash s h k x) = k.putNext (hashNext s) x := by
  cases k with
  | head => rfl
  | next u =>
    funext t
    by_cases ht : t = u
    · subst ht; simp [hashNext, writeHash, Cell.putNext]
    · simp [hashNext, writeHash, Cell.putNext, ht]

theorem tbPhysHash_writeHash (s : ExecState) (h : ℕ) (k : Cell ℕ) (x : Option ℕ) :
    (writeHash s h k x).tbPhysHash h = k.putHead (s.tbPhysHash h) x := by
  cases k <;> simp [writeHash, Cell.putHead, modTb]

theorem tbPhysHash_writeHash_of_ne (s : ExecState) {h h' : ℕ} (k : Cell ℕ) (x : Option ℕ)
    (hne : h' ≠ h) : (writeHash s h k x).tbPhysHash h' = s.tbPhysHash h' := by
  cases k <;> simp [writeHash, modTb, hne]

theorem SamePage.writeHash (s : ExecState) (h : ℕ) (k : Cell ℕ) (x : Option ℕ) :
    SamePage s (writeHash s h k x) := by
  cases k with
  | head => exact ⟨rfl, fun _ => rfl⟩
  | next u =>
    unfold Exec.writeHash
    exact SamePage.modTb s u (fun _ => rfl)

theorem SameJmp.writeHash (s : ExecState) (h : ℕ) (k : Cell ℕ) (x : Option ℕ) :
    SameJmp s (writeHash s h k x) := by
  cases k with
  | head => exact ⟨rfl, fun _ => rfl⟩
  | next u =>
    unfold Exec.writeHash
    exact SameJmp.modTb s u (fun _ => rfl) (fun _ => rfl) (fun _ => rfl)

theorem SameInfo.writeHash (s : ExecState) (h : ℕ) (k : Cell ℕ) (x : Option ℕ) :
    SameInfo s (writeHash s h k x) := by
  cases k with
  | head => exact ⟨fun _ => rfl, rfl, rfl, rfl, rfl⟩
  | next u =>
    unfold Exec.writeHash
    exact SameInfo.modTb s u (fun _ => rfl)

/-- A store to a cell of the list of a page, as the links see it. -/
theorem pageNext_writePage (s : ExecState) (i : ℕ) (k : Cell TbPtr) (x : Option TbPtr) :
    pageNext (writePage s i k x) = k.putNext (pageNext s) x := by
  cases k with
  | head => rfl
  | next u =>
    funext v
    obtain ⟨t, n⟩ := v
    obtain ⟨t', n'⟩ := u
    by_cases ht : t = t'
    · subst ht
      by_cases hn : n = n'
      · subst hn; simp [pageNext, writePage, Cell.putNext]
      · simp [pageNext, writePage, Cell.putNext, hn]
    · simp [pageNext, writePage, Cell.putNext, ht]

theorem firstTb_writePage (s : ExecState) (i : ℕ) (k : Cell TbPtr) (x : Option TbPtr)
    (hp : pageFind s i ≠ none) : firstTb (writePage s i k x) i = k.putHead (firstTb s i) x := by
  cases k with
  | head =>
    obtain ⟨p, hp⟩ := Option.ne_none_iff_exists'.mp hp
    simp [writePage, firstTb, pageFind_modPage, hp, Cell.putHead]
  | next u => rfl

theorem firstTb_writePage_of_ne (s : ExecState) {i j : ℕ} (k : Cell TbPtr) (x : Option TbPtr)
    (hne : j ≠ i) : firstTb (writePage s i k x) j = firstTb s j := by
  cases k with
  | head => simp [writePage, firstTb, pageFind_modPage, hne]
  | next u => rfl

theorem SameHash.writePage (s : ExecState) (i : ℕ) (k : Cell TbPtr) (x : Option TbPtr) :
    SameHash s (writePage s i k x) := by
  cases k with
  | head => exact ⟨rfl, rfl⟩
  | next u =>
    unfold Exec.writePage
    exact SameHash.modTb s u.tb (fun _ => rfl)

theorem SameJmp.writePage (s : ExecState) (i : ℕ) (k : Cell TbPtr) (x : Option TbPtr) :
    SameJmp s (writePage s i k x) := by
  cases k with
  | head => exact ⟨rfl, fun _ => rfl⟩
  | next u =>
    unfold Exec.writePage
    exact SameJmp.modTb s u.tb (fun _ => rfl) (fun _ => rfl) (fun _ => rfl)

theorem SameInfo.writePage (s : ExecState) (i : ℕ) (k : Cell TbPtr) (x : Option TbPtr) :
    SameInfo s (writePage s i k x) := by
  cases k with
  | head => exact ⟨fun _ => rfl, rfl, rfl, rfl, rfl⟩
  | next u =>
    unfold Exec.writePage
    exact SameInfo.modTb s u.tb (fun _ => rfl)

/-- A store to a link of a jump list. -/
theorem jmpNext_writeJmp (s : ExecState) (u : TbPtr) (x : Option TbPtr) :
    jmpNext (writeJmp s (.next u) x) = Function.update (jmpNext s) u x := by
  funext v
  obtain ⟨t, n⟩ := v
  obtain ⟨t', n'⟩ := u
  by_cases ht : t = t'
  · subst ht
    by_cases hn : n = n'
    · subst hn
      by_cases h2 : n = 2 <;> simp [jmpNext, writeJmp, h2]
    · by_cases h2 : n' = 2
      · subst h2
        simp [jmpNext, writeJmp, hn]
      · by_cases h2' : n = 2
        · subst h2'
          simp [jmpNext, writeJmp, h2, hn]
        · simp [jmpNext, writeJmp, h2, h2', hn]
  · simp [jmpNext, writeJmp, ht]

/-- `writeJmp` changes one block, and of it only the link fields of the jump lists. -/
theorem writeJmp_same (s : ExecState) (k : Cell TbPtr) (x : Option TbPtr) :
    SameHash s (writeJmp s k x) ∧ SamePage s (writeJmp s k x) ∧ SameInfo s (writeJmp s k x) ∧
      ∀ t, ((writeJmp s k x).tbs t).tbNext = (s.tbs t).tbNext := by
  cases k with
  | head => exact ⟨.refl s, .refl s, .refl s, fun _ => rfl⟩
  | next u =>
    unfold writeJmp
    refine ⟨.modTb s u.tb ?_, .modTb s u.tb ?_, .modTb s u.tb ?_, fun t => ?_⟩
    · intro tb; split <;> rfl
    · intro tb; split <;> rfl
    · intro tb; split <;> rfl
    · exact modTb_field s u.tb t _ (fun tb => tb.tbNext)
        (fun tb => by split <;> rfl)

/-! ### The memory side: descriptors, bitmaps and dirty flags -/

/-- The code bitmap of a page. -/
def bitmapOf (s : ExecState) (p : ℕ) : Option (ℕ → BitVec 8) :=
  (pageFind s p).bind (fun p => p.codeBitmap)

/-- Dirty flags and descriptors stay, bitmaps stay or are dropped. -/
structure ShrinkMem (s s' : ExecState) : Prop where
  dirty : s'.physRamDirty = s.physRamDirty
  desc : ∀ p, (pageFind s' p).isSome = (pageFind s p).isSome
  bitmap : ∀ p, bitmapOf s' p = none ∨ bitmapOf s' p = bitmapOf s p

theorem bitmapOf_pageAlloc (s : ExecState) (i p : ℕ) :
    bitmapOf (pageAlloc s i) p = bitmapOf s p := by
  unfold bitmapOf
  rcases pageFind_pageAlloc s i p with h | ⟨h, h'⟩
  · rw [h]
  · rw [h, h']; rfl

theorem ShrinkMem.refl (s : ExecState) : ShrinkMem s s := ⟨rfl, fun _ => rfl, fun _ => .inr rfl⟩

theorem ShrinkMem.trans (h : ShrinkMem s s') (h' : ShrinkMem s' s'') : ShrinkMem s s'' := by
  refine ⟨h'.dirty.trans h.dirty, fun p => (h'.desc p).trans (h.desc p), fun p => ?_⟩
  rcases h'.bitmap p with e | e
  · exact .inl e
  · rw [e]; exact h.bitmap p

theorem ShrinkMem.modTb (s : ExecState) (t : ℕ) (f : TranslationBlock → TranslationBlock) :
    ShrinkMem s (modTb s t f) := ⟨rfl, fun _ => rfl, fun _ => .inr rfl⟩

theorem ShrinkMem.modPage (s : ExecState) (i : ℕ) {f : PageDesc → PageDesc}
    (hf : ∀ p, (f p).codeBitmap = none ∨ (f p).codeBitmap = p.codeBitmap) :
    ShrinkMem s (modPage s i f) := by
  refine ⟨rfl, isSome_pageFind_modPage s i f, fun p => ?_⟩
  · unfold bitmapOf
    rw [pageFind_modPage]
    by_cases h : p = i
    · subst h
      rw [if_pos rfl]
      cases hp : pageFind s p with
      | none => exact .inr rfl
      | some d => exact hf d
    · rw [if_neg h]; exact .inr rfl

theorem ShrinkMem.writeHash (s : ExecState) (h : ℕ) (k : Cell ℕ) (x : Option ℕ) :
    ShrinkMem s (writeHash s h k x) := by
  cases k with
  | head => exact ⟨rfl, fun _ => rfl, fun _ => .inr rfl⟩
  | next u =>
    unfold Exec.writeHash
    exact ShrinkMem.modTb s u _

theorem ShrinkMem.writePage (s : ExecState) (i : ℕ) (k : Cell TbPtr) (x : Option TbPtr) :
    ShrinkMem s (writePage s i k x) := by
  cases k with
  | head =>
    unfold Exec.writePage
    exact ShrinkMem.modPage s i (fun _ => .inr rfl)
  | next u =>
    unfold Exec.writePage
    exact ShrinkMem.modTb s u.tb _

theorem ShrinkMem.writeJmp (s : ExecState) (k : Cell TbPtr) (x : Option TbPtr) :
    ShrinkMem s (writeJmp s k x) := by
  cases k with
  | head => exact .refl s
  | next u =>
    unfold Exec.writeJmp
    exact ShrinkMem.modTb s u.tb _

/-! ### Unlinking from the hash chain and the page lists -/

/-- `tb_remove` erases the block from its chain. -/
theorem tbRemove_spec {H : ℕ → List ℕ} {h : ℕ}
    (hseg : ∀ h, Seg (hashNext s) (s.tbPhysHash h) (H h) none) (hnd : ∀ h, (H h).Nodup)
    (hdisj : ∀ h' u, u ∈ H h → u ∈ H h' → h' = h) (ht : t ∈ H h)
    (hlen : (H h).length ≤ s.loopBound) :
    ∃ k x, tbRemove s h t = some (writeHash s h k x) ∧
      ∀ h', Seg (hashNext (writeHash s h k x)) ((writeHash s h k x).tbPhysHash h')
        ((H h').filter (fun u => !(u == t))) none := by
  obtain ⟨k, v, hfind, hget, hv, hpv, hk, hseg'⟩ := Seg.eraseP (c := .head) (p := fun u => u == t)
    (hseg h) (hnd h) ⟨t, ht, by simp⟩ hlen (by simp)
  have hvt : v = t := by simpa using hpv
  subst hvt
  refine ⟨k, hashNext s v, ?_, fun h' => ?_⟩
  · simp [tbRemove, hfind]
  have herase : (H h').eraseP (fun u => u == v) = (H h').filter (fun u => !(u == v)) :=
    eraseP_eq_filter (countP_le_length (m := [v]) (hnd h') (fun u _ hu => by simpa using hu))
  rw [hashNext_writeHash, ← herase]
  by_cases hh : h' = h
  · subst hh
    rw [tbPhysHash_writeHash]
    exact hseg'
  · rw [tbPhysHash_writeHash_of_ne _ _ _ hh]
    have hvh : ∀ u ∈ H h', ¬(u == v) = true := by
      intro u hu huv
      have : u = v := by simpa using huv
      exact hh (hdisj h' v hv (this ▸ hu))
    rw [List.eraseP_of_forall_not hvh]
    refine (hseg h').congr (fun u hu => putNext_of_ne ?_)
    rcases hk with rfl | ⟨w, hw, _, rfl⟩
    · simp
    · rintro ⟨⟩
      exact hh (hdisj h' u hw hu)

/-- `tb_page_remove` erases the first link of the block from the page's list. -/
theorem tbPageRemove_spec {P : ℕ → List TbPtr} {p : ℕ}
    (hseg : ∀ p, Seg (pageNext s) (firstTb s p) (P p) none) (hnd : (P p).Nodup)
    (hdisj : ∀ p' v, v ∈ P p → v ∈ P p' → p' = p) (ht : ∃ v ∈ P p, v.tb = t)
    (hlen : (P p).length ≤ s.loopBound) :
    ∃ k x, tbPageRemove s p t = some (writePage s p k x) ∧
      (∀ p', Seg (pageNext (writePage s p k x)) (firstTb (writePage s p k x) p')
        (if p' = p then (P p).eraseP (fun v => v.tb == t) else P p') none) ∧
      ∀ v : TbPtr, v.tb = t → pageNext (writePage s p k x) v = pageNext s v := by
  obtain ⟨w, hw, rfl⟩ := ht
  obtain ⟨k, v, hfind, hget, hv, hpv, hk, hseg'⟩ :=
    Seg.eraseP (c := .head) (e := firstTb s p) (p := fun v => v.tb == w.tb) (hseg p) hnd
      ⟨w, hw, by simp⟩ hlen (by simp)
  -- the list is not empty, so the page has a descriptor
  have hdesc : pageFind s p ≠ none := by
    intro hnone
    have hs := hseg p
    unfold firstTb at hs
    rw [hnone] at hs
    cases hP : P p with
    | nil => rw [hP] at hw; simp at hw
    | cons u l => rw [hP] at hs; simp at hs
  obtain ⟨d, hd⟩ := Option.ne_none_iff_exists'.mp hdesc
  have hfirst : firstTb s p = d.firstTb := by simp [firstTb, hd]
  rw [hfirst] at hfind hget
  refine ⟨k, pageNext s v, ?_, fun p' => ?_, fun u hu => ?_⟩
  · simp [tbPageRemove, hd, hfind, hget]
  rotate_left
  -- the link written belongs to another block
  · rw [pageNext_writePage]
    refine putNext_of_ne ?_
    rcases hk with rfl | ⟨w', _, hw', rfl⟩
    · simp
    · rintro ⟨⟩
      simp [hu] at hw'
  rw [pageNext_writePage]
  by_cases hp : p' = p
  · subst hp
    rw [if_pos rfl, firstTb_writePage _ _ _ _ hdesc]
    exact hseg'
  · rw [if_neg hp, firstTb_writePage_of_ne _ _ _ hp]
    refine (hseg p').congr (fun u hu => putNext_of_ne ?_)
    rcases hk with rfl | ⟨w', hw', _, rfl⟩
    · simp
    · rintro ⟨⟩
      exact hp (hdisj p' u hw' hu)

end Qemu.Exec
