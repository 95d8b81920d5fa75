import Qemu.Exec.TbUnlink

namespace Qemu.Exec

open Qemu.Lib

/-!
# Invalidating a range of a page

* `bitSet_setBits` — `set_bits` sets the bits of its range and no others;
* `TbMem` — the invariant between the page lists, the code bitmaps and the dirty flags;
* `tbInvalidatePhysPageRange_spec` — `tb_invalidate_phys_page_range` unlinks exactly the blocks
  with a part in the range.  Its loop reads the next link before it invalidates a block, so when
  a block has both slots in the list the loop goes on from a link of a block no longer linked;
  this is harmless only if the second part is not in the range.
-/

/-! ### Bits of a byte array -/

/-- Bit `i` of a byte array. -/
def bitSet (tab : ℕ → BitVec 8) (i : ℕ) : Bool := (tab (i / 8)).getLsbD (i % 8)

theorem getLsbD_highMask {k j : ℕ} (hj : j < 8) :
    (0xff#8 <<< k).getLsbD j = decide (k ≤ j) := by
  rw [BitVec.getLsbD_shiftLeft]
  by_cases h : k ≤ j
  · have hlt : j - k < 8 := by omega
    have h255 : ∀ m < 8, (0xff#8).getLsbD m = true := by decide
    simp [hj, h255 _ hlt, h]
  · simp [h, show j < k by omega]

/-- `set_bits` sets the bits `start .. start + len - 1`. -/
theorem bitSet_setBits (tab : ℕ → BitVec 8) (start len i : ℕ) :
    bitSet (setBits tab start len) i =
      (bitSet tab i || decide (start ≤ i ∧ i < start + len)) := by
  have hi : i % 8 < 8 := Nat.mod_lt _ (by omega)
  unfold setBits bitSet
  by_cases hsame : start / 8 = (start + len) / 8
  · rw [if_pos hsame]
    by_cases hlt : start < start + len
    · rw [if_pos hlt]
      by_cases hib : i / 8 = start / 8
      · rw [hib, Function.update_self]
        simp only [BitVec.getLsbD_or, BitVec.getLsbD_and, BitVec.getLsbD_not,
          getLsbD_highMask hi, hi, decide_true, Bool.true_and]
        congr 1
        rw [Bool.eq_iff_iff]
        simp only [Bool.and_eq_true, decide_eq_true_eq, Bool.not_eq_true', decide_eq_false_iff_not]
        omega
      · rw [Function.update_of_ne hib]
        have : ¬(start ≤ i ∧ i < start + len) := by omega
        simp [this]
    · rw [if_neg hlt]
      have : ¬(start ≤ i ∧ i < start + len) := by omega
      simp [this]
  · rw [if_neg hsame]
    have hle : start / 8 < (start + len) / 8 := by
      have := Nat.div_le_div_right (c := 8) (Nat.le_add_right start len)
      omega
    have hstart : (start + 8) / 8 * 8 / 8 = start / 8 + 1 := by omega
    have hmax : max ((start + 8) / 8 * 8) ((start + len) / 8 * 8) = (start + len) / 8 * 8 := by
      omega
    simp only [hstart, hmax]
    by_cases hfin : i / 8 = (start + len) / 8
    -- the last byte, written if the range ends inside it
    · have hout : ¬(start / 8 + 1 ≤ i / 8 ∧ i / 8 < (start + len) / 8) := by omega
      have hne : i / 8 ≠ start / 8 := by omega
      by_cases hend : (start + len) / 8 * 8 < start + len
      · rw [if_pos hend, ← hfin, Function.update_self, if_neg (by omega), BitVec.getLsbD_or,
          BitVec.getLsbD_not, getLsbD_highMask hi, Function.update_of_ne hne]
        congr 1
        rw [Bool.eq_iff_iff]
        simp only [hi, decide_true, Bool.true_and, Bool.not_eq_true', decide_eq_false_iff_not,
          decide_eq_true_eq]
        omega
      · rw [if_neg hend, if_neg hout, Function.update_of_ne hne]
        have : ¬(start ≤ i ∧ i < start + len) := by omega
        simp [this]
    · have hupd : ∀ (t t' : ℕ → BitVec 8), t (i / 8) = t' (i / 8) →
          (if (start + len) / 8 * 8 < start + len then
            Function.update t ((start + len) / 8)
              (t ((start + len) / 8) ||| ~~~(0xff#8 <<< ((start + len) % 8)))
          else t) (i / 8) = t' (i / 8) := by
        intro t t' h
        by_cases hend : (start + len) / 8 * 8 < start + len
        · rw [if_pos hend, Function.update_of_ne hfin, h]
        · rw [if_neg hend, h]
      rw [hupd _ _ rfl]
      by_cases hmid : start / 8 + 1 ≤ i / 8 ∧ i / 8 < (start + len) / 8
      · have : start ≤ i ∧ i < start + len := by omega
        have h255 : ∀ m < 8, (0xff#8).getLsbD m = true := by decide
        simp [hmid, this, h255 _ hi]
      · rw [if_neg hmid]
        by_cases hib : i / 8 = start / 8
        · rw [hib, Function.update_self, BitVec.getLsbD_or, getLsbD_highMask hi]
          congr 1
          rw [decide_eq_decide]
          omega
        · rw [Function.update_of_ne hib]
          have : ¬(start ≤ i ∧ i < start + len) := by omega
          simp [this]

/-! ### Page lists, bitmaps and dirty flags -/

/-- A page with blocks has its code flag clear, and its code bitmap, if it has one, covers the
    part of every block in the page. -/
structure TbMem (s : ExecState) (A : TbLists) : Prop where
  clean : ∀ p, A.page p ≠ [] → s.physRamDirty p &&& codeDirtyFlag = 0#8
  bitmap : ∀ p bm, bitmapOf s p = some bm → ∀ v ∈ A.page p, ∀ i,
    (bitmapRange s v).1 ≤ i → i < (bitmapRange s v).2 → bitSet bm i = true

variable {s s' : ExecState}

theorem bitmapRange_congr (hi : SameInfo s s') (v : TbPtr) :
    bitmapRange s' v = bitmapRange s v := by
  unfold bitmapRange
  rw [hi.info]

variable {A : TbLists}

/-- Unlinking blocks and dropping bitmaps keeps the invariant. -/
theorem TbMem.shrink {A' : TbLists} (h : TbMem s A) (hi : SameInfo s s') (hs : ShrinkMem s s')
    (hsub : ∀ p, ∀ v ∈ A'.page p, v ∈ A.page p) : TbMem s' A' := by
  refine ⟨fun p hp => ?_, fun p bm hbm v hv i hlo hhi => ?_⟩
  · obtain ⟨v, hv⟩ := List.exists_mem_of_ne_nil _ hp
    rw [hs.dirty]
    exact h.clean p (List.ne_nil_of_mem (hsub p v hv))
  · rw [bitmapRange_congr hi] at hlo hhi
    rcases hs.bitmap p with hnone | hsame
    · rw [hnone] at hbm; exact absurd hbm (by simp)
    · exact h.bitmap p bm (hsame ▸ hbm) v (hsub p v hv) i hlo hhi

/-- The invariant only reads the page lists, bitmaps, dirty flags and extents of the blocks. -/
theorem TbMem.congr {A' : TbLists} (h : TbMem s A) (hdirty : s'.physRamDirty = s.physRamDirty)
    (hbm : ∀ p, bitmapOf s' p = bitmapOf s p)
    (hrange : ∀ p, ∀ v ∈ A.page p, bitmapRange s' v = bitmapRange s v)
    (hpage : ∀ p, A'.page p = A.page p) : TbMem s' A' := by
  refine ⟨fun p hp => ?_, fun p bm hb v hv i hlo hhi => ?_⟩
  · rw [hdirty]
    exact h.clean p (hpage p ▸ hp)
  · rw [hrange p v (hpage p ▸ hv)] at hlo hhi
    exact h.bitmap p bm (hbm p ▸ hb) v (hpage p ▸ hv) i hlo hhi

variable {p : ℕ}

theorem keep_page_sub {K : ℕ → Bool} {v : TbPtr} (h : v ∈ (A.keep K).page p) :
    v ∈ A.page p := (List.mem_filter.mp h).1

/-- The loop of `build_page_bitmap` ends, keeps the bits it finds set and covers the list. -/
theorem buildPageBitmapLoop_spec {l : List TbPtr} {p : Option TbPtr} (fuel : ℕ)
    (bm : ℕ → BitVec 8) (hseg : Seg (pageNext s) p l none) (hf : l.length ≤ fuel) :
    ∃ bm', buildPageBitmapLoop s fuel bm p = some bm' ∧
      (∀ i, bitSet bm i = true → bitSet bm' i = true) ∧
      ∀ v ∈ l, ∀ i, (bitmapRange s v).1 ≤ i → i < (bitmapRange s v).2 → bitSet bm' i = true := by
  induction l generalizing fuel p bm with
  | nil =>
    rw [Seg_nil] at hseg
    subst hseg
    exact ⟨bm, by cases fuel <;> rfl, fun _ h => h, by simp⟩
  | cons v l ih =>
    obtain ⟨rfl, htl⟩ := hseg
    cases fuel with
    | zero => simp at hf
    | succ fuel =>
      simp only [List.length_cons] at hf
      obtain ⟨bm', hrun, hkeep, hcov⟩ := ih fuel
        (setBits bm (bitmapRange s v).1 ((bitmapRange s v).2 - (bitmapRange s v).1)) htl (by omega)
      refine ⟨bm', hrun, fun i hi => hkeep i ?_, fun u hu i hlo hhi => ?_⟩
      · rw [bitSet_setBits, hi, Bool.true_or]
      · rcases List.mem_cons.mp hu with rfl | hu
        · refine hkeep i ?_
          rw [bitSet_setBits, Bool.or_eq_true, decide_eq_true_eq]
          right
          omega
        · exact hcov u hu i hlo hhi

/-! ### The loop over the page list -/

/-- What is left of the lists after the loop: the blocks none of whose links from here on
    overlaps the range. -/
def keptBy (s : ExecState) (start fin : ℕ) (rest : List TbPtr) (t : ℕ) : Prop :=
  ∀ v ∈ rest, v.tb = t → overlaps (s.tbs t).toTbInfo v.n start fin = false

/-- No block has two different links in `l` that overlap the range. -/
def HitsOnce (s : ExecState) (start fin : ℕ) (l : List TbPtr) : Prop :=
  ∀ v ∈ l, ∀ u ∈ l, v.tb = u.tb → v ≠ u →
    overlaps (s.tbs v.tb).toTbInfo v.n start fin = true →
    overlaps (s.tbs u.tb).toTbInfo u.n start fin = false

/-- The links after a link of `t`: at most the first of them is of `t` again. -/
theorem TbWf.page_after (hw : TbWf s A) {pre r : List TbPtr} {v u : TbPtr}
    (h : A.page p = pre ++ v :: u :: r) (hu : u.tb = v.tb) : ∀ w ∈ r, w.tb ≠ v.tb := by
  intro w hw' hwt
  have hnd := hw.pageNodup p
  rw [h] at hnd
  have hnd := (List.nodup_append.mp hnd).2.1
  obtain ⟨hv, hnd⟩ := List.nodup_cons.mp hnd
  obtain ⟨hu', _⟩ := List.nodup_cons.mp hnd
  have hvu : v ≠ u := by rintro rfl; exact hv (by simp)
  have hvw : v ≠ w := by rintro rfl; exact hv (by simp [hw'])
  have huw : u ≠ w := by rintro rfl; exact hu' hw'
  -- three entries of one block on one page would need three slots
  have hmem : ∀ x ∈ [v, u, w], x ∈ A.page p := by
    intro x hx
    rw [h]
    simp only [List.mem_cons, List.not_mem_nil, or_false] at hx
    rcases hx with rfl | rfl | rfl <;> simp [hw']
  have hslot : ∀ x ∈ [v, u, w], x = ⟨v.tb, 0⟩ ∨ x = ⟨v.tb, 1⟩ := by
    intro x hx
    have hxt : x.tb = v.tb := by
      simp only [List.mem_cons, List.not_mem_nil, or_false] at hx
      rcases hx with rfl | rfl | rfl
      · rfl
      · exact hu
      · exact hwt
    rcases hw.pageWf.page_slots (hmem x hx) hxt with ⟨h, _⟩ | ⟨h, _⟩
    · exact .inl h
    · exact .inr h
  rcases hslot v (by simp) with h1 | h1 <;> rcases hslot u (by simp) with h2 | h2 <;>
    rcases hslot w (by simp) with h3 | h3
  · exact hvu (h1.trans h2.symm)
  · exact hvu (h1.trans h2.symm)
  · exact hvw (h1.trans h3.symm)
  · exact huw (h2.trans h3.symm)
  · exact huw (h2.trans h3.symm)
  · exact hvw (h1.trans h3.symm)
  · exact hvu (h1.trans h2.symm)
  · exact hvu (h1.trans h2.symm)

/-- Where the loop stands: at the links `rest`, or still at the second link of a block that has
    just been unlinked, with `rest` to follow. -/
def LoopAt (s : ExecState) (start fin fuel : ℕ) (cur : Option TbPtr) (rest : List TbPtr) : Prop :=
  (cur = rest.head? ∧ rest.length ≤ fuel) ∨
    ∃ u, cur = some u ∧ overlaps (s.tbs u.tb).toTbInfo u.n start fin = false ∧
      pageNext s u = rest.head? ∧ rest.length < fuel

variable {fin start : ℕ}

/-- The loop of `tb_invalidate_phys_page_range` unlinks the blocks with an overlapping link. -/
theorem invalidateLoop_spec {fuel : ℕ} {cur : Option TbPtr} {pre rest : List TbPtr}
    (hr : TbRepr s A) (hw : TbWf s A) (hpage : A.page p = pre ++ rest)
    (hone : HitsOnce s start fin rest) (hat : LoopAt s start fin fuel cur rest) :
    ∃ s' K, invalidateLoop start fin fuel s cur = some s' ∧ TbRepr s' (A.keep K) ∧
      TbWf s' (A.keep K) ∧ SameInfo s s' ∧ ShrinkMem s s' ∧
      ∀ t ∈ A.valid, K t = true ↔ keptBy s start fin rest t := by
  induction fuel generalizing s A cur pre rest with
  | zero =>
    rcases hat with ⟨rfl, hlen⟩ | ⟨_, _, _, _, hlen⟩
    · obtain rfl : rest = [] := List.length_eq_zero_iff.mp (by omega)
      exact ⟨s, fun _ => true, rfl, (keep_true A).symm ▸ hr, (keep_true A).symm ▸ hw, .refl s,
        .refl s, fun t _ => by simp [keptBy]⟩
    · omega
  | succ fuel ih =>
    rcases hat with ⟨rfl, hlen⟩ | ⟨u, rfl, hno, hnext, hlen⟩
    rotate_left
    -- the second link of a block already unlinked is passed over
    · obtain ⟨s', K, hrun, hres⟩ := ih hr hw hpage hone (.inl ⟨hnext, by omega⟩)
      refine ⟨s', K, ?_, hres⟩
      simp only [invalidateLoop, hno]
      exact hrun
    cases rest with
    | nil =>
      exact ⟨s, fun _ => true, rfl, (keep_true A).symm ▸ hr, (keep_true A).symm ▸ hw, .refl s,
        .refl s, fun t _ => by simp [keptBy]⟩
    | cons v r =>
      have hseg : Seg (pageNext s) (some v) (v :: r) none := Seg.drop (hpage ▸ hr.page p)
      have hnext : pageNext s v = r.head? := hseg.2.head_eq
      simp only [List.length_cons] at hlen
      by_cases hov : overlaps (s.tbs v.tb).toTbInfo v.n start fin = true
      · have hvt : v.tb ∈ A.valid := ((hw.memPage p v).mp (by rw [hpage]; simp)).1
        obtain ⟨s₁, hrun₁, hr₁, hw₁, hi₁, hm₁, hkeep₁⟩ := tbPhysInvalidate_spec hr hw hvt
        have hinfo : ∀ t, (s₁.tbs t).toTbInfo = (s.tbs t).toTbInfo := hi₁.info
        let other : TbPtr → Bool := fun w => !(w.tb == v.tb)
        have hpage₁ : (A.remove v.tb).page p = pre.filter other ++ r.filter other := by
          simp [TbLists.remove, TbLists.keep, hpage, other]
        have hone₁ : HitsOnce s₁ start fin (r.filter other) := by
          intro x hx y hy
          rw [hinfo, hinfo]
          exact hone x (by simp [(List.mem_filter.mp hx).1]) y (by simp [(List.mem_filter.mp hy).1])
        have hat₁ : LoopAt s₁ start fin fuel r.head? (r.filter other) := by
          cases r with
          | nil => exact .inl ⟨rfl, by simp⟩
          | cons u r' =>
            by_cases hut : u.tb = v.tb
            · have hrest : (u :: r').filter other = r' := by
                rw [List.filter_cons_of_neg (by simp [other, hut])]
                refine List.filter_eq_self.mpr (fun w hw' => ?_)
                simpa [other] using hw.page_after hpage hut w hw'
              have hne : v ≠ u := by
                rintro rfl
                have := hw.pageNodup p
                rw [hpage] at this
                exact (List.nodup_cons.mp (List.nodup_append.mp this).2.1).1 (by simp)
              rw [hrest]
              refine .inr ⟨u, rfl, ?_, ?_, ?_⟩
              · rw [hinfo]
                exact hone v (by simp) u (by simp) hut.symm hne hov
              · rw [hkeep₁ u hut]
                exact hseg.2.2.head_eq
              · simp only [List.length_cons] at hlen
                omega
            · refine .inl ⟨?_, ?_⟩
              · rw [List.filter_cons_of_pos (by simpa [other] using hut)]
                rfl
              · have := List.length_filter_le other (u :: r')
                omega
        obtain ⟨s', K, hrun, hr', hw', hi', hm', hK⟩ := ih hr₁ hw₁ hpage₁ hone₁ hat₁
        have hcomp : (A.remove v.tb).keep K = A.keep (fun t => K t && !(t == v.tb)) :=
          keep_keep A _ _
        rw [hcomp] at hr' hw'
        refine ⟨s', fun t => K t && !(t == v.tb), ?_, hr', hw', hi₁.trans hi', hm₁.trans hm', ?_⟩
        · simp only [List.head?_cons, invalidateLoop, hov, if_true, hrun₁, Option.bind_eq_bind,
            Option.bind_some, hnext]
          exact hrun
        · intro t ht
          show (K t && !(t == v.tb)) = true ↔ _
          by_cases htv : t = v.tb
          · subst htv
            simp only [beq_self_eq_true, Bool.not_true, Bool.and_false, Bool.false_eq_true,
              false_iff]
            intro hk
            have := hk v (by simp) rfl
            rw [hov] at this
            exact absurd this (by simp)
          · have hKt := hK t (mem_remove_valid.mpr ⟨htv, ht⟩)
            have hbeq : (!(t == v.tb)) = true := by simpa using htv
            rw [hbeq, Bool.and_true, hKt]
            unfold keptBy
            rw [hinfo]
            constructor
            · intro h w hw' hwt
              rcases List.mem_cons.mp hw' with rfl | hw'
              · exact absurd hwt.symm htv
              · exact h w (List.mem_filter.mpr ⟨hw', by simp [other, hwt, htv]⟩) hwt
            · intro h w hw' hwt
              exact h w (by simp [(List.mem_filter.mp hw').1]) hwt
      · have hpage' : A.page p = (pre ++ [v]) ++ r := by rw [hpage]; simp
        have hone' : HitsOnce s start fin r :=
          fun x hx y hy => hone x (by simp [hx]) y (by simp [hy])
        obtain ⟨s', K, hrun, hr', hw', hi', hm', hK⟩ :=
          ih hr hw hpage' hone' (.inl ⟨hnext, by omega⟩)
        refine ⟨s', K, ?_, hr', hw', hi', hm', fun t ht => (hK t ht).trans ?_⟩
        · simp only [List.head?_cons, invalidateLoop, if_neg hov]
          exact hrun
        · constructor
          · intro h w hw' hwt
            rcases List.mem_cons.mp hw' with rfl | hw'
            · subst hwt; simpa using hov
            · exact h w hw' hwt
          · intro h w hw' hwt
            exact h w (by simp [hw']) hwt

/-! ### The whole range -/

/-- The slot `n` of a block is in the page of `start` and overlaps the range. -/
def slotHit (tb : TbInfo) (start fin n : ℕ) : Bool :=
  slotPage tb n == some (start / targetPageSize) && overlaps tb n start fin

/-- Some part of the block in the page of `start` overlaps the range. -/
def rangeHits (tb : TbInfo) (start fin : ℕ) : Bool :=
  slotHit tb start fin 0 || slotHit tb start fin 1

/-- Both parts of the block are in the page of `start` and overlap the range. -/
def hitsTwice (tb : TbInfo) (start fin : ℕ) : Bool :=
  slotHit tb start fin 0 && slotHit tb start fin 1

/-- The fields the write count and the bitmap of a page do not touch. -/
theorem countCodeWrite_spec {d : PageDesc} (cpu : Bool)
    (hseg : ∀ p, Seg (pageNext s) (firstTb s p) (A.page p) none) (hw : PageTbsWf s A)
    (hm : TbMem s A) (hd : pageFind s p = some d) :
    ∃ s', countCodeWrite s p d cpu = some s' ∧ SameHash s s' ∧ SamePage s s' ∧ SameJmp s s' ∧
      SameInfo s s' ∧ TbMem s' A ∧ s'.physRamDirty = s.physRamDirty ∧
      ∀ q, (pageFind s' q).isSome = (pageFind s q).isSome := by
  let f : PageDesc → PageDesc := fun p => { p with codeWriteCount := p.codeWriteCount + 1 }
  let s₁ := modPage s p f
  have hp₁ : SamePage s s₁ := .modPage s p (fun _ => rfl)
  have hs₁ : ShrinkMem s s₁ := .modPage s p (fun _ => .inr rfl)
  have hi₁ : SameInfo s s₁ := .modPage s p f
  have hm₁ : TbMem s₁ A := hm.shrink hi₁ hs₁ (fun _ _ h => h)
  unfold countCodeWrite
  -- the count goes up, and from the threshold on the bitmap is built
  by_cases hb : d.codeBitmap.isNone = true
  swap
  · rw [if_neg hb]
    exact ⟨s, rfl, .refl s, .refl s, .refl s, .refl s, hm, rfl, fun _ => rfl⟩
  rw [if_pos hb]
  simp only
  by_cases hc : (d.codeWriteCount + 1 ≥ smcBitmapUseThreshold && cpu) = true
  swap
  · rw [if_neg hc]
    exact ⟨s₁, rfl, .modPage s p f, hp₁, .modPage s p f, hi₁, hm₁, hs₁.dirty, hs₁.desc⟩
  rw [if_pos hc]
  have hd₁ : pageFind s₁ p = some (f d) := by simp [s₁, pageFind_modPage, hd]
  have hfirst : (f d).firstTb = firstTb s p := by simp [f, firstTb, hd]
  obtain ⟨bm, hrun, _, hcov⟩ := buildPageBitmapLoop_spec (s := s₁) (l := A.page p)
    (p := firstTb s p) s₁.loopBound (fun _ => 0) (by rw [hp₁.next]; exact hseg p)
    ((hw.page_length p).trans (by simp [ExecState.loopBound, s₁, modPage]))
  let g : PageDesc → PageDesc := fun p => { p with codeBitmap := some bm }
  let s₂ := modPage s₁ p g
  have hp₂ : SamePage s₁ s₂ := .modPage s₁ p (fun _ => rfl)
  have hi₂ : SameInfo s₁ s₂ := .modPage s₁ p g
  refine ⟨s₂, ?_, (SameHash.modPage s p f).trans (.modPage s₁ p g), hp₁.trans hp₂,
    (SameJmp.modPage s p f).trans (.modPage s₁ p g), hi₁.trans hi₂, ⟨hm₁.clean, ?_⟩, rfl,
    fun q => (isSome_pageFind_modPage s₁ p g q).trans (hs₁.desc q)⟩
  · show buildPageBitmap s₁ p = some s₂
    unfold buildPageBitmap
    rw [hd₁]
    simp only [Option.bind_eq_bind, Option.bind_some, hfirst, hrun]
    rfl
  · intro q bm' hbm v hv i hlo hhi
    rw [bitmapRange_congr hi₂] at hlo hhi
    by_cases hq : q = p
    · subst hq
      have : bm' = bm := by
        simp only [bitmapOf, s₂, pageFind_modPage, if_true, hd₁, Option.map_some,
          Option.bind_some, g, Option.some.injEq] at hbm
        exact hbm.symm
      rw [this]
      exact hcov v hv i hlo hhi
    · have : bitmapOf s₂ q = bitmapOf s₁ q := by simp [bitmapOf, s₂, pageFind_modPage, hq]
      exact hm₁.bitmap q bm' (this ▸ hbm) v hv i hlo hhi

theorem TbRepr.congr (hr : TbRepr s A) (hh : SameHash s s') (hp : SamePage s s')
    (hj : SameJmp s s') : TbRepr s' A := by
  refine ⟨fun h => ?_, fun p => ?_, fun t ht => ?_⟩
  · rw [hh.next, hh.head]; exact hr.hash h
  · rw [hp.next, hp.head]; exact hr.page p
  · rw [hj.next]; exact hr.jmp t ht

theorem TbRepr.page_nil (hr : TbRepr s A) (h : firstTb s p = none) : A.page p = [] := by
  have := (hr.page p).head_eq
  rw [h] at this
  exact List.head?_eq_none_iff.mp this.symm

theorem TbWf.slotHit_iff (hw : TbWf s A) {t n : ℕ} (ht : t ∈ A.valid) :
    slotHit (s.tbs t).toTbInfo start fin n = true ↔
      (⟨t, n⟩ : TbPtr) ∈ A.page (start / targetPageSize) ∧
        overlaps (s.tbs t).toTbInfo n start fin = true := by
  unfold slotHit
  rw [Bool.and_eq_true, beq_iff_eq, hw.memPage]
  simp only [ht, true_and]

/-- What the loop over the whole page list keeps. -/
theorem TbWf.keptBy_iff (hw : TbWf s A) {t : ℕ} (ht : t ∈ A.valid) :
    keptBy s start fin (A.page (start / targetPageSize)) t ↔
      rangeHits (s.tbs t).toTbInfo start fin = false := by
  unfold keptBy rangeHits
  rw [Bool.or_eq_false_iff]
  constructor
  · intro h
    refine ⟨Bool.eq_false_iff.mpr (fun h0 => ?_), Bool.eq_false_iff.mpr (fun h1 => ?_)⟩
    · obtain ⟨hmem, hov⟩ := (hw.slotHit_iff ht).mp h0
      rw [h _ hmem rfl] at hov
      exact absurd hov (by simp)
    · obtain ⟨hmem, hov⟩ := (hw.slotHit_iff ht).mp h1
      rw [h _ hmem rfl] at hov
      exact absurd hov (by simp)
  · rintro ⟨h0, h1⟩ v hv hvt
    refine Bool.eq_false_iff.mpr (fun hov => ?_)
    rcases hw.pageWf.page_slots hv hvt with ⟨rfl, _⟩ | ⟨rfl, _⟩
    · rw [(hw.slotHit_iff ht).mpr ⟨hv, hov⟩] at h0
      exact absurd h0 (by simp)
    · rw [(hw.slotHit_iff ht).mpr ⟨hv, hov⟩] at h1
      exact absurd h1 (by simp)

/-- Blocks that do not overlap the range twice give a list the loop can walk. -/
theorem TbWf.hitsOnce (hw : TbWf s A)
    (hone : ∀ t ∈ A.valid, hitsTwice (s.tbs t).toTbInfo start fin = false) :
    HitsOnce s start fin (A.page (start / targetPageSize)) := by
  intro v hv u hu htb hne hov
  have hvt := ((hw.memPage _ v).mp hv).1
  have hvh := (hw.slotHit_iff hvt).mpr ⟨hv, hov⟩
  refine Bool.eq_false_iff.mpr (fun hov' => ?_)
  have huh := (hw.slotHit_iff (t := u.tb) (n := u.n) (htb ▸ hvt)).mpr ⟨hu, hov'⟩
  have h1 := hone v.tb hvt
  unfold hitsTwice at h1
  rcases hw.pageWf.page_slots hv rfl with ⟨h, _⟩ | ⟨h, _⟩ <;>
    rcases hw.pageWf.page_slots hu htb.symm with ⟨h', _⟩ | ⟨h', _⟩
  · exact hne (h.trans h'.symm)
  · rw [h] at hvh
    rw [← htb, h'] at huh
    simp only at hvh huh
    rw [hvh, huh] at h1
    exact absurd h1 (by simp)
  · rw [h] at hvh
    rw [← htb, h'] at huh
    simp only at hvh huh
    rw [hvh, huh] at h1
    exact absurd h1 (by simp)
  · exact hne (h.trans h'.symm)

/-- `tb_invalidate_phys_page_range` unlinks the blocks of the page that overlap the range. -/
theorem tbInvalidatePhysPageRange_spec (cpu : Bool) (hr : TbRepr s A) (hw : TbWf s A)
    (hm : TbMem s A) (hone : ∀ t ∈ A.valid, hitsTwice (s.tbs t).toTbInfo start fin = false) :
    ∃ s' K, tbInvalidatePhysPageRange s start fin cpu = some s' ∧ TbRepr s' (A.keep K) ∧
      TbWf s' (A.keep K) ∧ TbMem s' (A.keep K) ∧ SameInfo s s' ∧
      (∀ t ∈ A.valid, K t = !rangeHits (s.tbs t).toTbInfo start fin) ∧
      (∀ p, s'.physRamDirty p = s.physRamDirty p ∨
        s'.physRamDirty p = s.physRamDirty p ||| codeDirtyFlag) := by
  unfold tbInvalidatePhysPageRange
  set p := start / targetPageSize with hp
  cases hd : pageFind s p with
  | none =>
    simp only [hd]
    have hnil : A.page p = [] := hr.page_nil (by simp [firstTb, hd])
    refine ⟨s, fun _ => true, rfl, (keep_true A).symm ▸ hr, (keep_true A).symm ▸ hw,
      (keep_true A).symm ▸ hm, .refl s, fun t ht => ?_, fun _ => .inl rfl⟩
    rw [(hw.keptBy_iff ht).mp (by rw [← hp, hnil]; simp [keptBy])]
    rfl
  | some d =>
    obtain ⟨s₁, hrun₁, hh₁, hp₁, hj₁, hi₁, hm₁, hdirty₁, hdesc₁⟩ := 
      countCodeWrite_spec cpu hr.page hw.pageWf hm hd
    have hr₁ := hr.congr hh₁ hp₁ hj₁
    have hw₁ := hw.congr hi₁ hj₁
    have hfirst : d.firstTb = (A.page p).head? := by
      rw [← (hr.page p).head_eq]
      simp [firstTb, hd]
    have hone₁ : ∀ t ∈ A.valid, hitsTwice (s₁.tbs t).toTbInfo start fin = false := by
      intro t ht
      rw [hi₁.info]
      exact hone t ht
    have hat : LoopAt s₁ start fin s₁.loopBound d.firstTb (A.page p) :=
      .inl ⟨hfirst, (hw₁.pageWf.page_length p).trans (by simp [ExecState.loopBound])⟩
    obtain ⟨s₂, K, hrun₂, hr₂, hw₂, hi₂, hs₂, hK⟩ :=
      invalidateLoop_spec hr₁ hw₁ (List.nil_append (A.page p)).symm (hw₁.hitsOnce hone₁) hat
    have hm₂ : TbMem s₂ (A.keep K) := hm₁.shrink hi₂ hs₂ (fun _ _ h => keep_page_sub h)
    have hKt : ∀ t ∈ A.valid, K t = !rangeHits (s.tbs t).toTbInfo start fin := by
      intro t ht
      rw [← hi₁.info t, Bool.eq_iff_iff, hK t ht, hw₁.keptBy_iff ht, Bool.not_eq_true']
    have hdirty₂ : s₂.physRamDirty = s.physRamDirty := hs₂.dirty.trans hdirty₁
    have hsome : (pageFind s₂ p).isSome := by rw [hs₂.desc, hdesc₁, hd]; rfl
    obtain ⟨d₂, hd₂⟩ := Option.isSome_iff_exists.mp hsome
    simp only [hd, hrun₁, hrun₂, hd₂, Option.bind_eq_bind, Option.bind_some]
    by_cases hempty : d₂.firstTb.isNone = true
    swap
    · rw [if_neg hempty]
      exact ⟨s₂, K, rfl, hr₂, hw₂, hm₂, hi₁.trans hi₂, hKt, fun _ => .inl (by rw [hdirty₂])⟩
    rw [if_pos hempty]
    set s₃ := invalidatePageBitmap s₂ p with hs₃
    have hp₃ : SamePage s₂ s₃ := .modPage s₂ p (fun _ => rfl)
    have hi₃ : SameInfo s₂ s₃ := .modPage s₂ p _
    have hs₃' : ShrinkMem s₂ s₃ := .modPage s₂ p (fun _ => .inl rfl)
    have hr₃ : TbRepr s₃ (A.keep K) := hr₂.congr (.modPage s₂ p _) hp₃ (.modPage s₂ p _)
    have hw₃ : TbWf s₃ (A.keep K) := hw₂.congr hi₃ (.modPage s₂ p _)
    have hm₃ : TbMem s₃ (A.keep K) := hm₂.shrink hi₃ hs₃' (fun _ _ h => h)
    cases cpu with
    | false =>
      exact ⟨s₃, K, rfl, hr₃, hw₃, hm₃, (hi₁.trans hi₂).trans hi₃, hKt,
        fun _ => .inl (by rw [hs₃'.dirty, hdirty₂])⟩
    | true =>
      -- the page has no block left, so its flag may be set
      have hnil : (A.keep K).page p = [] := by
        refine hr₂.page_nil ?_
        simp only [firstTb, hd₂, Option.bind_some]
        simpa using hempty
      have hdirty : ∀ q, (tlbUnprotectCodePhys s₃ start).physRamDirty q =
          if q = p then s.physRamDirty q ||| codeDirtyFlag else s.physRamDirty q := by
        intro q
        have h₃ : s₃.physRamDirty = s.physRamDirty := hs₃'.dirty.trans hdirty₂
        by_cases hq : q = p
        · subst hq; simp [tlbUnprotectCodePhys, ← hp, h₃]
        · simp [tlbUnprotectCodePhys, ← hp, h₃, hq]
      refine ⟨tlbUnprotectCodePhys s₃ start, K, rfl, ⟨hr₃.hash, hr₃.page, hr₃.jmp⟩,
        hw₃.congr ⟨fun _ => rfl, rfl, rfl, rfl, rfl⟩ ⟨rfl, fun _ => rfl⟩,
          ⟨fun q hq => ?_, hm₃.bitmap⟩,
        ((hi₁.trans hi₂).trans hi₃).trans ⟨fun _ => rfl, rfl, rfl, rfl, rfl⟩, hKt, fun q => ?_⟩
      · have hqp : q ≠ p := by rintro rfl; exact hq hnil
        rw [hdirty, if_neg hqp, ← hdirty₂]
        exact hm₂.clean q hq
      · rw [hdirty]
        by_cases hq : q = p
        · exact .inr (by rw [if_pos hq])
        · exact .inl (by rw [if_neg hq])

end Qemu.Exec
