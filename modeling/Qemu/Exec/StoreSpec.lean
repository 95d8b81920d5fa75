import Qemu.Exec.Store

namespace Qemu.Exec

open Qemu.Lib

/-!
# What a store leaves behind

`Stored s A x` is what a store of the byte `x` has to bring about: no linked block contains the
byte and the page has all its dirty flags but the code flag set.

* `linkedTbs_eq` — the blocks found in their hash chains are the linked ones;
* `TbInfo.Geom.rangeHits` — a block with a byte in a range is hit by the range;
* `invalidateAndSetDirty_spec`, `notdirtyMemWrite_spec` — the two ways to store in one page;
* `Kept` — later stores do not undo what earlier ones did.
-/

/-! ### Linked blocks -/

/-- The block is in the chain of its hash value. -/
def isLinked (s : ExecState) (t : ℕ) : Bool :=
  (findCell (s.tbPhysHash (tbPhysHashFunc (s.tbs t).physPc)) (hashNext s) (fun u => u == t)
    s.loopBound .head).isSome

/-- The linked blocks of a state. -/
def linkedTbs (s : ExecState) : Finset ℕ := (Finset.range s.nbTbs).filter (fun t => isLinked s t)

variable {A : TbLists} {s : ExecState}

/-- The blocks on the hash lists are those in use. -/
theorem linkedTbs_eq (hr : TbRepr s A) (hw : TbWf s A) : linkedTbs s = A.valid := by
  ext t
  unfold linkedTbs
  rw [Finset.mem_filter, Finset.mem_range]
  set h := tbPhysHashFunc (s.tbs t).physPc with hh
  constructor
  · rintro ⟨_, hfound⟩
    by_contra hnot
    have hno : ∀ u ∈ A.hash h, (u == t) = false := by
      intro u hu
      refine Bool.eq_false_iff.mpr (fun hut => hnot ?_)
      rw [← (beq_iff_eq.mp hut : u = t)]
      exact ((hw.memHash h u).mp hu).1
    have hnone := findCell_eq_none (c := .head) s.loopBound (hr.hash h) hno
    unfold isLinked at hfound
    rw [← hh, hnone] at hfound
    exact absurd hfound (by simp)
  · intro ht
    refine ⟨hw.lt t ht, ?_⟩
    have hlen : (A.hash h).length ≤ s.loopBound := by
      have := hw.hash_length h
      simp only [ExecState.loopBound]
      omega
    obtain ⟨k, v, hfind, _⟩ := Seg.eraseP (c := .head) (p := fun u => u == t) (hr.hash h)
      (hw.hashNodup h) ⟨t, (hw.memHash h t).mpr ⟨ht, rfl⟩, by simp⟩ hlen (by simp)
    unfold isLinked
    rw [← hh, hfind]
    rfl

/-! ### The bytes of a block -/

/-- The physical address of the byte `i` of a block. -/
def TbInfo.physByte (tb : TbInfo) (i : ℕ) : ℕ :=
  if tb.pc % targetPageSize + i < targetPageSize then
    tb.pageAddr 0 + (tb.pc % targetPageSize + i)
  else tb.pageAddr 1 + (tb.pc % targetPageSize + i - targetPageSize)

/-- The block contains the byte at `x`. -/
def TbInfo.covers (tb : TbInfo) (x : ℕ) : Prop := ∃ i, i < tb.size ∧ tb.physByte i = x

instance (tb : TbInfo) (x : ℕ) : Decidable (tb.covers x) :=
  inferInstanceAs (Decidable (∃ i, i < tb.size ∧ tb.physByte i = x))

variable {x : ℕ}

/-- The slot a byte belongs to: its page, and its place in the part of the block there. -/
theorem TbInfo.Geom.byte_slot {tb : TbInfo} (hg : tb.Geom) (h0 : tb.pageAddr 0 ≠ noPage)
    (hx : tb.covers x) :
    (slotPage tb 0 = some (x / targetPageSize) ∧ tb.pc % targetPageSize ≤ x % targetPageSize ∧
      x % targetPageSize < tb.pc % targetPageSize + tb.size ∧
      tb.pageAddr 0 + x % targetPageSize = x) ∨
    (slotPage tb 1 = some (x / targetPageSize) ∧
      x % targetPageSize < (tb.pc + tb.size) % targetPageSize ∧
      tb.pageAddr 1 + x % targetPageSize = x) := by
  obtain ⟨i, hi, rfl⟩ := hx
  have hfits := hg.fits
  have hp0 := hg.page0_mod
  have hp1 := hg.page1
  unfold TbInfo.physByte
  -- the byte is on the first page, or the block crosses into the second
  by_cases hlow : tb.pc % targetPageSize + i < targetPageSize
  · left
    rw [if_pos hlow]
    have hdiv : (tb.pageAddr 0 + (tb.pc % targetPageSize + i)) / targetPageSize =
        tb.pageAddr 0 / targetPageSize := by
      unfold targetPageSize at *
      omega
    rw [hdiv]
    refine ⟨by simp [slotPage, h0], ?_, ?_, ?_⟩ <;> unfold targetPageSize at * <;> omega
  · right
    rw [if_neg hlow]
    have hcross : ¬ tb.pc % targetPageSize + tb.size ≤ targetPageSize := by
      unfold targetPageSize at *
      omega
    rw [if_neg hcross] at hp1
    have hne : tb.pageAddr 1 ≠ noPage := by
      intro h
      rw [h] at hp1
      exact absurd hp1 (by decide)
    have hdiv : (tb.pageAddr 1 + (tb.pc % targetPageSize + i - targetPageSize)) / targetPageSize =
        tb.pageAddr 1 / targetPageSize := by
      unfold targetPageSize at *
      omega
    rw [hdiv]
    refine ⟨by simp [slotPage, hne], ?_, ?_⟩ <;> unfold targetPageSize at * <;> omega

variable {start : ℕ}

/-- A block with a byte in a range of one page is hit by the range. -/
theorem TbInfo.Geom.rangeHits {tb : TbInfo} (hg : tb.Geom) (h0 : tb.pageAddr 0 ≠ noPage) {fin : ℕ}
    (hx : tb.covers x) (hlo : start ≤ x) (hhi : x < fin)
    (hpage : x / targetPageSize = start / targetPageSize) : rangeHits tb start fin = true := by
  unfold Exec.rangeHits slotHit
  rw [Bool.or_eq_true, Bool.and_eq_true, Bool.and_eq_true, beq_iff_eq, beq_iff_eq, ← hpage]
  rcases hg.byte_slot h0 hx with ⟨hs, hlow, hhigh, heq⟩ | ⟨hs, hhigh, heq⟩
  · left
    refine ⟨hs, ?_⟩
    have h1 : ¬ tb.pageAddr 0 + tb.pc % targetPageSize + tb.size ≤ start := by omega
    have h2 : ¬ tb.pageAddr 0 + tb.pc % targetPageSize ≥ fin := by omega
    simp only [overlaps, linkRange, if_true, h1, h2, decide_false, Bool.or_self, Bool.not_false]
  · right
    refine ⟨hs, ?_⟩
    have h1 : ¬ tb.pageAddr 1 + (tb.pc + tb.size) % targetPageSize ≤ start := by omega
    have h2 : ¬ tb.pageAddr 1 ≥ fin := by omega
    simp only [overlaps, linkRange, if_neg (one_ne_zero), h1, h2, decide_false, Bool.or_self,
      Bool.not_false]

/-! ### What a store brings about -/

/-- The page has all its dirty flags set, but perhaps the code flag. -/
def NonCodeDirty (s : ExecState) (p : ℕ) : Prop := s.physRamDirty p ||| codeDirtyFlag = 0xff#8

/-- The byte `x` has been stored properly. -/
structure Stored (s : ExecState) (A : TbLists) (x : ℕ) : Prop where
  clear : ∀ t ∈ A.valid, ¬ (s.tbs t).toTbInfo.covers x
  dirty : NonCodeDirty s (x / targetPageSize)

/-- From `s` to `s'` no block is linked or changed, and no flag but code flags is cleared. -/
structure Kept (s : ExecState) (A : TbLists) (s' : ExecState) (A' : TbLists) : Prop where
  info : SameInfo s s'
  sub : A'.valid ⊆ A.valid
  dirty : ∀ p, NonCodeDirty s p → NonCodeDirty s' p

theorem Kept.refl (s : ExecState) (A : TbLists) : Kept s A s A :=
  ⟨.refl s, subset_rfl, fun _ h => h⟩

theorem Kept.trans {s' s'' : ExecState} {A' A'' : TbLists} (h : Kept s A s' A')
    (h' : Kept s' A' s'' A'') : Kept s A s'' A'' :=
  ⟨h.info.trans h'.info, h'.sub.trans h.sub, fun p hp => h'.dirty p (h.dirty p hp)⟩

theorem Stored.kept {s' : ExecState} {A' : TbLists} (h : Stored s A x) (hk : Kept s A s' A') :
    Stored s' A' x := by
  refine ⟨fun t ht => ?_, hk.dirty _ h.dirty⟩
  rw [hk.info.info]
  exact h.clear t (hk.sub ht)

/-! ### Dirty flags -/

theorem or_setDirty_and_code (d : BitVec 8) :
    (d ||| (0xff#8 &&& ~~~codeDirtyFlag)) &&& codeDirtyFlag = d &&& codeDirtyFlag := by
  have h : (0xff#8 &&& ~~~codeDirtyFlag) &&& codeDirtyFlag = 0#8 := by decide
  rw [BitVec.and_or_distrib_right, h, BitVec.or_zero]

theorem or_setDirty_or_code (d : BitVec 8) :
    (d ||| (0xff#8 &&& ~~~codeDirtyFlag)) ||| codeDirtyFlag = 0xff#8 := by
  have h : (0xff#8 &&& ~~~codeDirtyFlag) ||| codeDirtyFlag = BitVec.allOnes 8 := by decide
  rw [BitVec.or_assoc, h, BitVec.or_allOnes]
  rfl

theorem or_code_or_code (d : BitVec 8) :
    d ||| codeDirtyFlag ||| codeDirtyFlag = d ||| codeDirtyFlag := by
  rw [BitVec.or_assoc, BitVec.or_self]

theorem physRamDirty_setDirtyFlags (s : ExecState) (a p : ℕ) :
    (setDirtyFlags s a).physRamDirty p = if p = a / targetPageSize then
      s.physRamDirty p ||| (0xff#8 &&& ~~~codeDirtyFlag) else s.physRamDirty p := by
  by_cases hp : p = a / targetPageSize
  · subst hp; simp [setDirtyFlags]
  · simp [setDirtyFlags, hp]

theorem setDirtyFlags_dirty (s : ExecState) (a : ℕ) :
    NonCodeDirty (setDirtyFlags s a) (a / targetPageSize) := by
  unfold NonCodeDirty
  rw [physRamDirty_setDirtyFlags, if_pos rfl]
  exact or_setDirty_or_code _

/-- Setting dirty flags keeps the invariant. -/
theorem TbInv.setDirtyFlags (h : TbInv s A) (a : ℕ) :
    TbInv (setDirtyFlags s a) A ∧ Kept s A (setDirtyFlags s a) A := by
  have hi : SameInfo s (Exec.setDirtyFlags s a) := ⟨fun _ => rfl, rfl, rfl, rfl, rfl⟩
  refine ⟨h.of_sameInfo hi subset_rfl ⟨h.repr.hash, h.repr.page, h.repr.jmp⟩
    (h.wf.congr hi ⟨rfl, fun _ => rfl⟩) ⟨fun p hp => ?_, h.mem.bitmap⟩, hi, subset_rfl,
      fun p hp => ?_⟩
  · have hclean := h.mem.clean p hp
    rw [physRamDirty_setDirtyFlags]
    by_cases hpa : p = a / targetPageSize
    · rw [if_pos hpa, or_setDirty_and_code]
      exact hclean
    · rw [if_neg hpa]
      exact hclean
  · by_cases hpa : p = a / targetPageSize
    · subst hpa
      exact setDirtyFlags_dirty s a
    · unfold NonCodeDirty
      rw [physRamDirty_setDirtyFlags, if_neg hpa]
      exact hp

/-- A page with its code flag set contains no byte of a linked block. -/
theorem TbInv.clear_of_code (h : TbInv s A)
    (hc : s.physRamDirty (x / targetPageSize) &&& codeDirtyFlag ≠ 0#8) :
    ∀ t ∈ A.valid, ¬ (s.tbs t).toTbInfo.covers x := by
  intro t ht hx
  have hnil : A.page (x / targetPageSize) = [] := by
    by_contra hne
    exact hc (h.mem.clean _ hne)
  have hmem : ∀ n, slotPage (s.tbs t).toTbInfo n = some (x / targetPageSize) → False := by
    intro n hn
    have := (h.wf.memPage _ ⟨t, n⟩).mpr ⟨ht, hn⟩
    rw [hnil] at this
    exact absurd this (by simp)
  rcases (h.geom t ht).byte_slot (h.wf.page0 t ht) hx with ⟨hs, _⟩ | ⟨hs, _⟩
  · exact hmem 0 hs
  · exact hmem 1 hs

/-! ### One page -/

/-- Invalidating a range clears its bytes of code. -/
theorem TbInv.invalidate_clear {fin : ℕ} (cpu : Bool) (h : TbInv s A)
    (hone : ∀ t ∈ A.valid, hitsTwice (s.tbs t).toTbInfo start fin = false) :
    ∃ s' A', tbInvalidatePhysPageRange s start fin cpu = some s' ∧ TbInv s' A' ∧
      Kept s A s' A' ∧ ∀ x, start ≤ x → x < fin → x / targetPageSize = start / targetPageSize →
        ∀ t ∈ A'.valid, ¬ (s'.tbs t).toTbInfo.covers x := by
  obtain ⟨s', K, hrun, hinv, hi, hK, hd⟩ := h.invalidateRange cpu hone
  refine ⟨s', A.keep K, hrun, hinv, ⟨hi, Finset.filter_subset _ _, fun p hp => ?_⟩, ?_⟩
  · unfold NonCodeDirty at hp ⊢
    rcases hd p with e | e
    · rw [e]; exact hp
    · rw [e, or_code_or_code]; exact hp
  · intro x hlo hhi hpage t ht hx
    obtain ⟨ht, hKt⟩ := Finset.mem_filter.mp ht
    rw [hi.info] at hx
    have hhit := (h.geom t ht).rangeHits (h.wf.page0 t ht) hx hlo hhi hpage
    rw [hK t ht, hhit] at hKt
    exact absurd hKt (by simp)

/-- What the memory functions do after storing in a page of RAM. -/
theorem invalidateAndSetDirty_spec {a l : ℕ} (h : TbInv s A)
    (hone : ∀ t ∈ A.valid, hitsTwice (s.tbs t).toTbInfo a (a + l) = false) :
    ∃ s' A', invalidateAndSetDirty s a l = some s' ∧ TbInv s' A' ∧ Kept s A s' A' ∧
      ∀ x, a ≤ x → x < a + l → x / targetPageSize = a / targetPageSize → Stored s' A' x := by
  unfold invalidateAndSetDirty
  by_cases hd : isDirty s a = true
  · rw [if_pos hd]
    unfold isDirty at hd
    rw [beq_iff_eq] at hd
    refine ⟨s, A, rfl, h, .refl s A, fun x _ _ hpage => ⟨h.clear_of_code ?_, ?_⟩⟩
    · rw [hpage, hd]; decide
    · unfold NonCodeDirty
      rw [hpage, hd]
      decide
  · rw [if_neg hd]
    obtain ⟨s₁, A₁, hrun, hinv, hk, hclear⟩ := h.invalidate_clear false hone
    obtain ⟨hinv₂, hk₂⟩ := hinv.setDirtyFlags a
    refine ⟨Exec.setDirtyFlags s₁ a, A₁, by rw [hrun]; rfl, hinv₂, hk.trans hk₂,
      fun x hlo hhi hpage => ⟨hclear x hlo hhi hpage, ?_⟩⟩
    rw [hpage]
    exact setDirtyFlags_dirty s₁ a

/-! ### The code bitmap -/

variable {len : ℕ}

/-- The bits `tb_invalidate_phys_page_fast` looks at. -/
theorem bitSet_of_shift {bm : ℕ → BitVec 8} {off k : ℕ} (hal : off % 8 + len ≤ 8) (hk : k < len)
    (hz : (bm (off / 8) >>> (off % 8)) &&& BitVec.ofNat 8 (2 ^ len - 1) = 0#8) :
    bitSet bm (off + k) = false := by
  have hdiv : (off + k) / 8 = off / 8 := by omega
  have hmod : (off + k) % 8 = off % 8 + k := by omega
  have hbit := congrArg (fun v => BitVec.getLsbD v k) hz
  simp only [BitVec.getLsbD_and, BitVec.getLsbD_ushiftRight, BitVec.getLsbD_ofNat,
    Nat.testBit_two_pow_sub_one, hk, show k < 8 by omega, decide_true, Bool.and_true,
    Nat.zero_testBit, Bool.and_false] at hbit
  unfold bitSet
  rw [hdiv, hmod]
  exact hbit

/-- The bitmap of a page has a bit for every byte of code in it. -/
theorem TbInv.bitSet_of_covers (h : TbInv s A) {bm : ℕ → BitVec 8}
    (hbm : bitmapOf s (x / targetPageSize) = some bm) {t : ℕ} (ht : t ∈ A.valid)
    (hx : (s.tbs t).toTbInfo.covers x) : bitSet bm (x % targetPageSize) = true := by
  have hlt : x % targetPageSize < targetPageSize := Nat.mod_lt _ (by decide)
  rcases (h.geom t ht).byte_slot (h.wf.page0 t ht) hx with ⟨hs, hlo, hhi, _⟩ | ⟨hs, hhi, _⟩
  · refine h.mem.bitmap _ bm hbm ⟨t, 0⟩ ((h.wf.memPage _ _).mpr ⟨ht, hs⟩) _ ?_ ?_
    · simpa [bitmapRange] using hlo
    · simpa [bitmapRange] using ⟨hhi, hlt⟩
  · refine h.mem.bitmap _ bm hbm ⟨t, 1⟩ ((h.wf.memPage _ _).mpr ⟨ht, hs⟩) _ ?_ ?_
    · simp [bitmapRange]
    · simpa [bitmapRange] using hhi

/-- `tb_invalidate_phys_page_fast` clears the bytes of code, the bitmap telling when there are
    none. -/
theorem tbInvalidatePhysPageFast_spec (h : TbInv s A) (hal : start % 8 + len ≤ 8)
    (hone : ∀ t ∈ A.valid, hitsTwice (s.tbs t).toTbInfo start (start + len) = false) :
    ∃ s' A', tbInvalidatePhysPageFast s start len = some s' ∧ TbInv s' A' ∧ Kept s A s' A' ∧
      ∀ x, start ≤ x → x < start + len → ∀ t ∈ A'.valid, ¬ (s'.tbs t).toTbInfo.covers x := by
  have hpage : ∀ x, start ≤ x → x < start + len →
      x / targetPageSize = start / targetPageSize := by
    intro x hlo hhi
    unfold targetPageSize
    omega
  have hslow := h.invalidate_clear true hone
  unfold tbInvalidatePhysPageFast
  -- without a page nothing is translated from the byte; a clear bit says the same
  cases hd : pageFind s (start / targetPageSize) with
  | none =>
    simp only
    refine ⟨s, A, rfl, h, .refl s A, fun x hlo hhi t ht hx => ?_⟩
    have hnil := h.repr.page_nil (p := start / targetPageSize) (by simp [firstTb, hd])
    have hmem : ∀ n, slotPage (s.tbs t).toTbInfo n = some (x / targetPageSize) → False := by
      intro n hn
      rw [hpage x hlo hhi] at hn
      have := (h.wf.memPage _ ⟨t, n⟩).mpr ⟨ht, hn⟩
      rw [hnil] at this
      exact absurd this (by simp)
    rcases (h.geom t ht).byte_slot (h.wf.page0 t ht) hx with ⟨hs, _⟩ | ⟨hs, _⟩
    · exact hmem 0 hs
    · exact hmem 1 hs
  | some d =>
    have hslow' : ∃ s' A', tbInvalidatePhysPageRange s start (start + len) true = some s' ∧
        TbInv s' A' ∧ Kept s A s' A' ∧ ∀ x, start ≤ x → x < start + len →
          ∀ t ∈ A'.valid, ¬ (s'.tbs t).toTbInfo.covers x := by
      obtain ⟨s', A', hrun, hinv, hk, hclear⟩ := hslow
      exact ⟨s', A', hrun, hinv, hk, fun x hlo hhi => hclear x hlo hhi (hpage x hlo hhi)⟩
    cases hb : d.codeBitmap with
    | none =>
      simp only [hb]
      exact hslow'
    | some bm =>
      simp only [hb]
      by_cases hbits : (bm (start % targetPageSize / 8) >>> (start % targetPageSize % 8)) &&&
          BitVec.ofNat 8 (2 ^ len - 1) = 0#8
      · rw [if_neg (not_not.mpr hbits)]
        refine ⟨s, A, rfl, h, .refl s A, fun x hlo hhi t ht hx => ?_⟩
        have hbm : bitmapOf s (x / targetPageSize) = some bm := by
          rw [hpage x hlo hhi]
          simp [bitmapOf, hd, hb]
        have hset := h.bitSet_of_covers hbm ht hx
        have hal' : start % targetPageSize % 8 + len ≤ 8 := by
          unfold targetPageSize
          omega
        have hx' : x % targetPageSize = start % targetPageSize + (x - start) := by
          have := hpage x hlo hhi
          unfold targetPageSize at *
          omega
        rw [hx', bitSet_of_shift hal' (by omega) hbits] at hset
        exact absurd hset (by simp)
      · rw [if_pos hbits]
        exact hslow'

/-- A store through a `notdirty_mem_write` handler. -/
theorem notdirtyMemWrite_spec {a : ℕ} (h : TbInv s A) (hal : a % 8 + len ≤ 8)
    (hone : ∀ t ∈ A.valid, hitsTwice (s.tbs t).toTbInfo a (a + len) = false) :
    ∃ s' A', notdirtyMemWrite s a len = some s' ∧ TbInv s' A' ∧ Kept s A s' A' ∧
      ∀ x, a ≤ x → x < a + len → Stored s' A' x := by
  have hpage : ∀ x, a ≤ x → x < a + len → x / targetPageSize = a / targetPageSize := by
    intro x hlo hhi
    unfold targetPageSize
    omega
  unfold notdirtyMemWrite
  by_cases hc : s.physRamDirty (a / targetPageSize) &&& codeDirtyFlag = 0#8
  · rw [if_pos hc]
    obtain ⟨s₁, A₁, hrun, hinv, hk, hclear⟩ := tbInvalidatePhysPageFast_spec h hal hone
    obtain ⟨hinv₂, hk₂⟩ := hinv.setDirtyFlags a
    refine ⟨setDirtyFlags s₁ a, A₁, by rw [hrun]; rfl, hinv₂, hk.trans hk₂,
      fun x hlo hhi => ⟨hclear x hlo hhi, ?_⟩⟩
    rw [hpage x hlo hhi]
    exact setDirtyFlags_dirty s₁ a
  · rw [if_neg hc]
    obtain ⟨hinv₂, hk₂⟩ := h.setDirtyFlags a
    refine ⟨setDirtyFlags s a, A, rfl, hinv₂, hk₂, fun x hlo hhi => ⟨?_, ?_⟩⟩
    · rw [← hpage x hlo hhi] at hc
      exact h.clear_of_code hc
    · rw [hpage x hlo hhi]
      exact setDirtyFlags_dirty s a

end Qemu.Exec
