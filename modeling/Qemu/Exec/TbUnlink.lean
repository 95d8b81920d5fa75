import Qemu.Exec.TbLists

namespace Qemu.Exec

open Qemu.Lib

/-!
# Invalidating a block

What `tb_phys_invalidate` does to the lists (`tbPhysInvalidate_spec`): it takes the block out of
its hash chain, its page lists and the two jump lists it is in, resets the jumps into it, and
leaves every other block linked where it was.  `TbWf` is the invariant the lists keep; it is
also what the loops need to find the block and to end.
-/

/-! ### The invariant -/

/-- The page the slot `n` of a block is linked in. -/
def slotPage (tb : TbInfo) (n : ℕ) : Option ℕ :=
  if n < 2 ∧ tb.pageAddr n ≠ noPage then some (tb.pageAddr n / targetPageSize) else none

/-- The jump slot `v` branches back into its own block. -/
def jumpReset (s : ExecState) (v : TbPtr) : Prop :=
  (s.tbs v.tb).tbNextOffset v.n ≠ 0xffff →
    (s.tbs v.tb).tbNext v.n = (s.tbs v.tb).tcPtr + (s.tbs v.tb).tbNextOffset v.n

/-- A linked block is in the chain of its hash, once in the list of each of its pages under the
    slot used for it, and each of its jump slots is either reset or in the list of exactly one
    linked block, to which it branches. -/
structure TbWf (s : ExecState) (A : TbLists) : Prop where
  lt : ∀ t ∈ A.valid, t < s.nbTbs
  page0 : ∀ t ∈ A.valid, (s.tbs t).pageAddr 0 ≠ noPage
  hashNodup : ∀ h, (A.hash h).Nodup
  memHash : ∀ h t, t ∈ A.hash h ↔ t ∈ A.valid ∧ tbPhysHashFunc (s.tbs t).physPc = h
  pageNodup : ∀ p, (A.page p).Nodup
  memPage : ∀ p v, v ∈ A.page p ↔ v.tb ∈ A.valid ∧ slotPage (s.tbs v.tb).toTbInfo v.n = some p
  jmpNodup : ∀ t ∈ A.valid, (A.jmp t).Nodup
  jmpMem : ∀ t ∈ A.valid, ∀ v ∈ A.jmp t,
    v.tb ∈ A.valid ∧ v.n < 2 ∧ (s.tbs v.tb).tbNext v.n = (s.tbs t).tcPtr
  jmpDisj : ∀ t ∈ A.valid, ∀ t' ∈ A.valid, ∀ v, v ∈ A.jmp t → v ∈ A.jmp t' → t' = t
  jmpFree : ∀ v, v.tb ∈ A.valid → v.n < 2 → (∀ t ∈ A.valid, v ∉ A.jmp t) →
    jmpNext s v = none ∧ jumpReset s v

/-- The part of the invariant about the page lists. -/
structure PageTbsWf (s : ExecState) (A : TbLists) : Prop where
  lt : ∀ t ∈ A.valid, t < s.nbTbs
  page0 : ∀ t ∈ A.valid, (s.tbs t).pageAddr 0 ≠ noPage
  pageNodup : ∀ p, (A.page p).Nodup
  memPage : ∀ p v, v ∈ A.page p ↔ v.tb ∈ A.valid ∧ slotPage (s.tbs v.tb).toTbInfo v.n = some p

variable {A : TbLists} {s : ExecState}

theorem TbWf.pageWf (hw : TbWf s A) : PageTbsWf s A :=
  ⟨hw.lt, hw.page0, hw.pageNodup, hw.memPage⟩

variable {n p : ℕ}

theorem slotPage_lt {tb : TbInfo} (h : slotPage tb n = some p) : n < 2 := by
  unfold slotPage at h
  by_cases hn : n < 2 ∧ tb.pageAddr n ≠ noPage
  · exact hn.1
  · rw [if_neg hn] at h; exact absurd h (by simp)

variable {l : List TbPtr}

theorem slots_length_le (hnd : l.Nodup) (h : ∀ v ∈ l, v.tb < s.nbTbs ∧ v.n < 2) :
    l.length ≤ 2 * s.nbTbs := by
  refine length_le_of_index hnd (fun v => 2 * v.tb + v.n) ?_ ?_
  · intro v hv
    have := h v hv
    omega
  · intro v hv u hu heq
    have hv := h v hv
    have hu := h u hu
    obtain ⟨t, n⟩ := v
    obtain ⟨t', n'⟩ := u
    simp only at hv hu heq
    have ht : t = t' := by omega
    have hn : n = n' := by omega
    rw [ht, hn]

theorem TbWf.hash_length (hw : TbWf s A) (h : ℕ) : (A.hash h).length ≤ s.nbTbs :=
  length_le_of_index (hw.hashNodup h) id (fun t ht => hw.lt t ((hw.memHash h t).mp ht).1)
    (fun _ _ _ _ heq => heq)

theorem PageTbsWf.page_length (hw : PageTbsWf s A) (p : ℕ) : (A.page p).length ≤ 2 * s.nbTbs := by
  refine slots_length_le (hw.pageNodup p) (fun v hv => ?_)
  obtain ⟨hvalid, hslot⟩ := (hw.memPage p v).mp hv
  exact ⟨hw.lt _ hvalid, slotPage_lt hslot⟩

variable {t : ℕ}

theorem TbWf.jmp_length (hw : TbWf s A) (ht : t ∈ A.valid) : (A.jmp t).length ≤ 2 * s.nbTbs := by
  refine slots_length_le (hw.jmpNodup t ht) (fun v hv => ?_)
  obtain ⟨hvalid, hn, _⟩ := hw.jmpMem t ht v hv
  exact ⟨hw.lt _ hvalid, hn⟩

/-! ### Jump lists -/

theorem modTb_jmpNext (s : ExecState) (t : ℕ) (x : Option TbPtr) (hn : n ≠ 2) :
    modTb s t (fun t => { t with jmpNext := Function.update t.jmpNext n x }) =
      writeJmp s (.next ⟨t, n⟩) x := by
  simp [writeJmp, hn]

/-- The fields that jump-list operations leave alone. -/
structure JmpFrame (s s' : ExecState) : Prop where
  hash : SameHash s s'
  page : SamePage s s'
  info : SameInfo s s'
  mem : ShrinkMem s s'

theorem JmpFrame.refl (s : ExecState) : JmpFrame s s := ⟨.refl s, .refl s, .refl s, .refl s⟩

variable {s' : ExecState}

theorem JmpFrame.trans {s'' : ExecState} (h : JmpFrame s s') (h' : JmpFrame s' s'') :
    JmpFrame s s'' :=
  ⟨h.hash.trans h'.hash, h.page.trans h'.page, h.info.trans h'.info, h.mem.trans h'.mem⟩

theorem JmpFrame.writeJmp (s : ExecState) (k : Cell TbPtr) (x : Option TbPtr) :
    JmpFrame s (writeJmp s k x) :=
  ⟨(writeJmp_same s k x).1, (writeJmp_same s k x).2.1, (writeJmp_same s k x).2.2.1,
    .writeJmp s k x⟩

theorem JmpFrame.tbResetJump (s : ExecState) (t n : ℕ) : JmpFrame s (tbResetJump s t n) := by
  unfold Exec.tbResetJump tbSetJmpTarget
  exact ⟨.modTb s t (fun _ => rfl), .modTb s t (fun _ => rfl), .modTb s t (fun _ => rfl),
    .modTb s t _⟩

/-- `tb_jmp_remove` erases the slot from the list it is in and clears its link. -/
theorem tbJmpRemove_spec {V : Finset ℕ} {J : ℕ → List TbPtr}
    (hseg : ∀ o ∈ V, Seg (jmpNext s) (jmpNext s ⟨o, 2⟩) (J o) (some ⟨o, 2⟩))
    (hnd : ∀ o ∈ V, (J o).Nodup) (hlt : ∀ o ∈ V, ∀ v ∈ J o, v.n < 2)
    (hdisj : ∀ o ∈ V, ∀ o' ∈ V, ∀ v, v ∈ J o → v ∈ J o' → o' = o) (hn : n < 2)
    (hfree : (∀ o ∈ V, (⟨t, n⟩ : TbPtr) ∉ J o) → jmpNext s ⟨t, n⟩ = none)
    (hlen : ∀ o ∈ V, (J o).length < s.loopBound) :
    ∃ s', tbJmpRemove s t n = some s' ∧
      (∀ o ∈ V, Seg (jmpNext s') (jmpNext s' ⟨o, 2⟩) ((J o).erase ⟨t, n⟩) (some ⟨o, 2⟩)) ∧
      jmpNext s' ⟨t, n⟩ = none ∧
      (∀ v, v.n < 2 → (∀ o ∈ V, v ∉ J o) → jmpNext s' v = jmpNext s v) ∧
      (∀ u, (s'.tbs u).tbNext = (s.tbs u).tbNext) ∧ JmpFrame s s' := by
  have hn2 : n ≠ 2 := by omega
  have hread : jmpNext s ⟨t, n⟩ = (s.tbs t).jmpNext n := by simp [jmpNext, hn2]
  cases hx : (s.tbs t).jmpNext n with
  | none =>
    have hnone : jmpNext s ⟨t, n⟩ = none := hread.trans hx
    -- a slot with a null link is in no list: a list never passes a null link
    have hout : ∀ o ∈ V, (⟨t, n⟩ : TbPtr) ∉ J o :=
      fun o ho hmem => (hseg o ho).next_ne_none hmem hnone
    refine ⟨s, by simp [tbJmpRemove, hx], fun o ho => ?_, hnone, fun _ _ _ => rfl, fun _ => rfl,
      .refl s⟩
    rw [List.erase_of_not_mem (hout o ho)]
    exact hseg o ho
  | some y =>
    have hmem : ∃ o ∈ V, (⟨t, n⟩ : TbPtr) ∈ J o := by
      by_contra hno
      have hnone := hfree (fun o ho hm => hno ⟨o, ho, hm⟩)
      rw [hread, hx] at hnone
      exact absurd hnone (by simp)
    obtain ⟨o, ho, hm⟩ := hmem
    have hown : ∀ o' ∈ V, ∀ o'' : ℕ, (⟨o'', 2⟩ : TbPtr) ∉ J o' := by
      intro o' ho' o'' hm'
      exact absurd (hlt o' ho' _ hm') (by simp)
    have hnd' : ((⟨o, 2⟩ : TbPtr) :: J o).Nodup := List.nodup_cons.mpr ⟨hown o ho o, hnd o ho⟩
    obtain ⟨k, hfind, ⟨w, hw, rfl⟩, hs'⟩ := Seg.eraseCircular
      (p := fun v : TbPtr => v.n == n && v.tb == t) (hseg o ho) hnd' hm
      (fun u => by cases u; simp [and_comm]) (hlen o ho)
    let s₁ := writeJmp s (.next w) ((s.tbs t).jmpNext n)
    let s₂ := writeJmp s₁ (.next ⟨t, n⟩) none
    have hrun : tbJmpRemove s t n = some s₂ := by
      simp only [tbJmpRemove, hx, hfind, Option.bind_eq_bind, Option.bind_some]
      rw [modTb_jmpNext _ _ _ hn2]
      simp only [s₂, s₁, hx]
    have hnext : jmpNext s₂ =
        Function.update (Function.update (jmpNext s) w ((s.tbs t).jmpNext n)) ⟨t, n⟩ none := by
      simp only [s₂, s₁, jmpNext_writeJmp]
    have hwn : ∀ v : TbPtr, v ≠ w → v ≠ ⟨t, n⟩ → jmpNext s₂ v = jmpNext s v := by
      intro v hvw hvt
      rw [hnext, Function.update_of_ne hvt, Function.update_of_ne hvw]
    refine ⟨s₂, hrun, fun o' ho' => ?_, ?_, fun v hv hvout => ?_, fun u => ?_, ?_⟩
    · by_cases hoo : o' = o
      -- the list the slot was in: unlink first, then clear the link that left it
      · subst hoo
        rw [hread] at hs'
        have hclear : ∀ v : TbPtr, v ≠ ⟨t, n⟩ →
            jmpNext s₂ v = (Cell.next w).putNext (jmpNext s) ((s.tbs t).jmpNext n) v := by
          intro v hv
          rw [hnext, Function.update_of_ne hv]
          rfl
        rw [hclear ⟨o', 2⟩ (by simp [Ne.symm hn2])]
        refine hs'.congr (fun v hv => hclear v ?_)
        rintro rfl
        exact (List.Nodup.not_mem_erase (hnd o' ho')) hv
      · have hout : (⟨t, n⟩ : TbPtr) ∉ J o' := fun h => hoo (hdisj o ho o' ho' _ hm h)
        have hwout : w ∉ J o' := by
          rcases List.mem_cons.mp hw with rfl | hw
          · exact hown o' ho' o
          · exact fun h => hoo (hdisj o ho o' ho' _ hw h)
        have hwo : (⟨o', 2⟩ : TbPtr) ≠ w := by
          rintro rfl
          rcases List.mem_cons.mp hw with h | h
          · exact hoo (congrArg TbPtr.tb h)
          · exact hown o ho o' h
        rw [List.erase_of_not_mem hout, hwn _ hwo (by simp [Ne.symm hn2])]
        refine (hseg o' ho').congr (fun v hv => hwn v ?_ ?_)
        · rintro rfl; exact hwout hv
        · rintro rfl; exact hout hv
    · rw [hnext, Function.update_self]
    · refine hwn v ?_ ?_
      · rintro rfl
        rcases List.mem_cons.mp hw with h | h
        · rw [h] at hv; exact absurd hv (by simp)
        · exact hvout o ho h
      · rintro rfl
        exact hvout o ho hm
    · rw [(writeJmp_same s₁ _ _).2.2.2, (writeJmp_same s _ _).2.2.2]
    · exact (JmpFrame.writeJmp s _ _).trans (JmpFrame.writeJmp s₁ _ _)

/-- The last loop of `tb_phys_invalidate` clears and resets every jump of the list. -/
theorem resetJumps_spec {fuel : ℕ} {p : Option TbPtr} (hseg : Seg (jmpNext s) p l (some ⟨t, 2⟩))
    (hnd : l.Nodup) (hlt : ∀ v ∈ l, v.n < 2) (hf : l.length < fuel) :
    ∃ s', resetJumps fuel s p = some s' ∧
      (∀ v ∈ l, jmpNext s' v = none ∧
        (s'.tbs v.tb).tbNext v.n = (s.tbs v.tb).tcPtr + (s.tbs v.tb).tbNextOffset v.n) ∧
      (∀ v ∉ l, jmpNext s' v = jmpNext s v ∧
        (s'.tbs v.tb).tbNext v.n = (s.tbs v.tb).tbNext v.n) ∧ JmpFrame s s' := by
  -- on the list of the jumps into `t`: each is reset and taken off
  induction l generalizing fuel s p with
  | nil =>
    rw [Seg_nil] at hseg
    cases fuel with
    | zero => simp at hf
    | succ fuel =>
      exact ⟨s, by simp [resetJumps, hseg], by simp, fun _ _ => ⟨rfl, rfl⟩, .refl s⟩
  | cons v l ih =>
    obtain ⟨hp, htl⟩ := hseg
    obtain ⟨hvl, hnd⟩ := List.nodup_cons.mp hnd
    have hvn : v.n ≠ 2 := by have := hlt v (by simp); omega
    cases fuel with
    | zero => simp at hf
    | succ fuel =>
      simp only [List.length_cons] at hf
      let s₁ := tbResetJump s v.tb v.n
      let s₂ := writeJmp s₁ (.next v) none
      have hframe₁ : JmpFrame s s₁ := .tbResetJump s v.tb v.n
      have hjmp₁ : jmpNext s₁ = jmpNext s := by
        funext u
        by_cases hu : u.tb = v.tb
        · simp [s₁, tbResetJump, tbSetJmpTarget, jmpNext, hu]
        · simp [s₁, tbResetJump, tbSetJmpTarget, jmpNext, hu]
      have hnext : jmpNext s₂ = Function.update (jmpNext s) v none := by
        simp only [s₂, jmpNext_writeJmp, hjmp₁]
      have htarget : ∀ u : TbPtr, (s₂.tbs u.tb).tbNext u.n =
          if u = v then (s.tbs v.tb).tcPtr + (s.tbs v.tb).tbNextOffset v.n
          else (s.tbs u.tb).tbNext u.n := by
        intro u
        rw [(writeJmp_same s₁ _ _).2.2.2]
        obtain ⟨a, b⟩ := u
        obtain ⟨c, d⟩ := v
        by_cases hac : a = c
        · subst hac
          by_cases hbd : b = d
          · subst hbd; simp [s₁, tbResetJump, tbSetJmpTarget]
          · simp [s₁, tbResetJump, tbSetJmpTarget, hbd]
        · simp [s₁, tbResetJump, tbSetJmpTarget, hac]
      have hseg₂ : Seg (jmpNext s₂) (jmpNext s v) l (some ⟨t, 2⟩) := by
        refine htl.congr (fun u hu => ?_)
        rw [hnext, Function.update_of_ne]
        rintro rfl
        exact hvl hu
      obtain ⟨s', hrun, hin, hout, hframe⟩ :=
        ih hseg₂ hnd (fun u hu => hlt u (by simp [hu])) (by omega : l.length < fuel)
      have hframe₂ : JmpFrame s s₂ := hframe₁.trans (.writeJmp s₁ _ _)
      refine ⟨s', ?_, ?_, ?_, hframe₂.trans hframe⟩
      · subst hp
        have hread : jmpNext s v = (s.tbs v.tb).jmpNext v.n := by simp [jmpNext, hvn]
        rw [hread] at hrun
        simp only [resetJumps, if_neg hvn]
        rw [modTb_jmpNext _ _ _ hvn]
        exact hrun
      · intro u hu
        rcases List.mem_cons.mp hu with rfl | hu
        · obtain ⟨h₁, h₂⟩ := hout u hvl
          rw [h₁, h₂, htarget, if_pos rfl, hnext]
          simp
        · obtain ⟨h₁, h₂⟩ := hin u hu
          have hinfo := hframe₂.info.info u.tb
          refine ⟨h₁, ?_⟩
          rw [h₂, hinfo]
      · intro u hu
        rw [List.mem_cons, not_or] at hu
        obtain ⟨h₁, h₂⟩ := hout u hu.2
        rw [h₁, h₂, htarget, if_neg hu.1, hnext, Function.update_of_ne hu.1]
        exact ⟨rfl, rfl⟩

/-! ### The page lists -/

/-- The links of a block in the list of the page `p`, the second slot in front. -/
def slotLinks (tb : TbInfo) (t p : ℕ) : List TbPtr :=
  (if slotPage tb 1 = some p then [⟨t, 1⟩] else []) ++
    (if slotPage tb 0 = some p then [⟨t, 0⟩] else [])

variable {v : TbPtr}

/-- The links of a block on a page are those of its slots that are on it. -/
theorem mem_slotLinks {tb : TbInfo} :
    v ∈ slotLinks tb t p ↔ v.tb = t ∧ slotPage tb v.n = some p := by
  obtain ⟨u, n⟩ := v
  unfold slotLinks
  constructor
  · intro h
    rcases List.mem_append.mp h with h | h
    · split_ifs at h with hs
      · rw [List.mem_singleton] at h
        cases h
        exact ⟨rfl, hs⟩
      · simp at h
    · split_ifs at h with hs
      · rw [List.mem_singleton] at h
        cases h
        exact ⟨rfl, hs⟩
      · simp at h
  · rintro ⟨rfl, hs⟩
    simp only at hs
    have hn := slotPage_lt hs
    have h01 : n = 0 ∨ n = 1 := by omega
    rcases h01 with rfl | rfl <;> simp [hs]

theorem slotLinks_nodup (tb : TbInfo) (t p : ℕ) : (slotLinks tb t p).Nodup := by
  unfold slotLinks
  split_ifs <;> simp

theorem length_slotLinks (tb : TbInfo) (t p : ℕ) : (slotLinks tb t p).length =
    (if slotPage tb 0 = some p then 1 else 0) + (if slotPage tb 1 = some p then 1 else 0) := by
  unfold slotLinks
  split_ifs <;> rfl

/-- The first slot of a block is taken out of the list of a page. -/
def eraseSlot (P : ℕ → List TbPtr) (t p p' : ℕ) : List TbPtr :=
  if p' = p then (P p).eraseP (fun v => v.tb == t) else P p'

theorem eraseSlot_sublist (P : ℕ → List TbPtr) (t p p' : ℕ) :
    (eraseSlot P t p p').Sublist (P p') := by
  unfold eraseSlot
  split_ifs with h
  · exact h ▸ List.eraseP_sublist
  · exact List.Sublist.refl _

theorem filter_eraseSlot (P : ℕ → List TbPtr) (t p p' : ℕ) :
    (eraseSlot P t p p').filter (fun v => !(v.tb == t)) =
      (P p').filter (fun v => !(v.tb == t)) := by
  unfold eraseSlot
  split_ifs with h
  · rw [filter_eraseP, h]
  · rfl

theorem countP_eraseSlot {P : ℕ → List TbPtr} (h : ∃ v ∈ P p, v.tb = t) (p' : ℕ) :
    (eraseSlot P t p p').countP (fun v => v.tb == t) + (if p' = p then 1 else 0) =
      (P p').countP (fun v => v.tb == t) := by
  obtain ⟨v, hv, hvt⟩ := h
  have hbeq : ∃ v ∈ P p, (fun v : TbPtr => v.tb == t) v = true := ⟨v, hv, beq_iff_eq.mpr hvt⟩
  unfold eraseSlot
  split_ifs with hp
  · rw [countP_eraseP_add_one hbeq, hp]
  · rfl

theorem eq_filter_of_countP {l' : List TbPtr} (hcount : l.countP (fun v => v.tb == t) = 0)
    (hfilter : l.filter (fun v => !(v.tb == t)) = l'.filter (fun v => !(v.tb == t))) :
    l = l'.filter (fun v => !(v.tb == t)) := by
  rw [← hfilter]
  refine (List.filter_eq_self.mpr fun v hv => ?_).symm
  rw [Bool.not_eq_true', Bool.eq_false_iff]
  exact List.countP_eq_zero.mp hcount v hv

/-- One page removal with the bitmap dropped. -/
theorem unlinkPage_spec {P : ℕ → List TbPtr}
    (hseg : ∀ p, Seg (pageNext s) (firstTb s p) (P p) none) (hnd : (P p).Nodup)
    (hdisj : ∀ p' v, v ∈ P p → v ∈ P p' → p' = p) (ht : ∃ v ∈ P p, v.tb = t)
    (hlen : (P p).length ≤ s.loopBound) :
    ∃ s', unlinkPage s t p = some s' ∧ SameHash s s' ∧ SameJmp s s' ∧ SameInfo s s' ∧
      ShrinkMem s s' ∧ (∀ p', Seg (pageNext s') (firstTb s' p') (eraseSlot P t p p') none) ∧
      ∀ v : TbPtr, v.tb = t → pageNext s' v = pageNext s v := by
  obtain ⟨k, x, hrun, hseg', hkeep⟩ := tbPageRemove_spec hseg hnd hdisj ht hlen
  let s₁ := writePage s p k x
  have hp : SamePage s₁ (invalidatePageBitmap s₁ p) := .modPage s₁ p (fun _ => rfl)
  refine ⟨invalidatePageBitmap s₁ p, by simp [unlinkPage, hrun, s₁],
    (SameHash.writePage s p k x).trans (.modPage s₁ p _),
    (SameJmp.writePage s p k x).trans (.modPage s₁ p _),
    (SameInfo.writePage s p k x).trans (.modPage s₁ p _),
    (ShrinkMem.writePage s p k x).trans (.modPage s₁ p (fun _ => .inl rfl)), fun p' => ?_,
    fun v hv => ?_⟩
  · rw [hp.next, hp.head]
    exact hseg' p'
  · rw [hp.next]
    exact hkeep v hv

/-- The slots of `t` in the list of a page. -/
theorem PageTbsWf.page_slots (hw : PageTbsWf s A) (hv : v ∈ A.page p) (hvt : v.tb = t) :
    (v = ⟨t, 0⟩ ∧ (s.tbs t).pageAddr 0 / targetPageSize = p) ∨
      (v = ⟨t, 1⟩ ∧ (s.tbs t).pageAddr 1 ≠ noPage ∧ (s.tbs t).pageAddr 1 / targetPageSize = p) := by
  obtain ⟨_, hslot⟩ := (hw.memPage p v).mp hv
  obtain ⟨u, n⟩ := v
  simp only at hvt hslot
  subst hvt
  have hn := slotPage_lt hslot
  unfold slotPage at hslot
  by_cases hc : n < 2 ∧ (s.tbs u).pageAddr n ≠ noPage
  · rw [if_pos hc] at hslot
    have hp := Option.some.inj hslot
    have h01 : n = 0 ∨ n = 1 := by omega
    rcases h01 with rfl | rfl
    · exact .inl ⟨rfl, hp⟩
    · exact .inr ⟨rfl, hc.2, hp⟩
  · rw [if_neg hc] at hslot; exact absurd hslot (by simp)

theorem PageTbsWf.mem_page_zero (hw : PageTbsWf s A) (ht : t ∈ A.valid) :
    (⟨t, 0⟩ : TbPtr) ∈ A.page ((s.tbs t).pageAddr 0 / targetPageSize) := by
  refine (hw.memPage _ _).mpr ⟨ht, ?_⟩
  simp [slotPage, hw.page0 t ht]

theorem PageTbsWf.page_disjoint (hw : PageTbsWf s A) {p' : ℕ} (h : v ∈ A.page p)
    (h' : v ∈ A.page p') : p' = p := by
  have h₁ := ((hw.memPage p v).mp h).2
  have h₂ := ((hw.memPage p' v).mp h').2
  rw [h₁] at h₂
  exact (Option.some.inj h₂).symm

/-- How often a block is in the list of a page. -/
theorem PageTbsWf.countP_page (hw : PageTbsWf s A) (ht : t ∈ A.valid) (p : ℕ) :
    (A.page p).countP (fun v => v.tb == t) =
      (if p = (s.tbs t).pageAddr 0 / targetPageSize then 1 else 0) +
        (if (s.tbs t).pageAddr 1 ≠ noPage ∧ p = (s.tbs t).pageAddr 1 / targetPageSize then 1
          else 0) := by
  have hperm : ((A.page p).filter fun v => v.tb == t).Perm (slotLinks (s.tbs t).toTbInfo t p) := by
    refine (List.perm_ext_iff_of_nodup ((hw.pageNodup p).filter _) (slotLinks_nodup _ _ _)).mpr
      fun v => ?_
    rw [List.mem_filter, hw.memPage, mem_slotLinks, beq_iff_eq]
    constructor
    · rintro ⟨⟨-, hslot⟩, rfl⟩
      exact ⟨rfl, hslot⟩
    · rintro ⟨rfl, hslot⟩
      exact ⟨⟨ht, hslot⟩, rfl⟩
  rw [List.countP_eq_length_filter, hperm.length_eq, length_slotLinks]
  have hzero : slotPage (s.tbs t).toTbInfo 0 = some p ↔
      p = (s.tbs t).pageAddr 0 / targetPageSize := by
    simp [slotPage, hw.page0 t ht, eq_comm]
  have hone : slotPage (s.tbs t).toTbInfo 1 = some p ↔
      (s.tbs t).pageAddr 1 ≠ noPage ∧ p = (s.tbs t).pageAddr 1 / targetPageSize := by
    simp [slotPage, eq_comm]
  simp only [hzero, hone]

/-- The two page removals of `tb_phys_invalidate` take the block out of every page list. -/
theorem unlinkPages_spec (hw : PageTbsWf s A)
    (hseg : ∀ p, Seg (pageNext s) (firstTb s p) (A.page p) none) (ht : t ∈ A.valid) :
    ∃ s', unlinkPages s t noPage = some s' ∧
      SameHash s s' ∧ SameJmp s s' ∧ SameInfo s s' ∧ ShrinkMem s s' ∧
      (∀ p, Seg (pageNext s') (firstTb s' p) ((A.page p).filter (fun v => !(v.tb == t))) none) ∧
      ∀ v : TbPtr, v.tb = t → pageNext s' v = pageNext s v := by
  have hlen : ∀ p, (A.page p).length ≤ s.loopBound :=
    fun p => (hw.page_length p).trans (by simp [ExecState.loopBound])
  have hmem₀ : ∃ v ∈ A.page ((s.tbs t).pageAddr 0 / targetPageSize), v.tb = t :=
    ⟨_, hw.mem_page_zero ht, rfl⟩
  obtain ⟨s₂, hrun₁, hhash₁, hjmp₁, hinfo₁, hmem₁, hseg₁, hkeep₁⟩ := unlinkPage_spec hseg
    (hw.pageNodup _) (fun p' v h h' => hw.page_disjoint h h') hmem₀ (hlen _)
  have hcount₁ := countP_eraseSlot hmem₀
  unfold unlinkPages
  rw [if_pos (hw.page0 t ht), hrun₁]
  simp only [Option.bind_eq_bind, Option.bind_some]
  rw [hinfo₁.info t]
  set p₀ := (s.tbs t).pageAddr 0 / targetPageSize with hp₀
  by_cases h1 : (s.tbs t).pageAddr 1 = noPage
  -- the block lies in one page
  · refine ⟨s₂, by simp [h1], hhash₁, hjmp₁, hinfo₁, hmem₁, fun p => ?_, hkeep₁⟩
    have hgone : (eraseSlot A.page t p₀ p).countP (fun v => v.tb == t) = 0 := by
      have hcount := hcount₁ p
      rw [hw.countP_page ht, ← hp₀, if_neg (not_and_of_not_left _ (not_not.mpr h1))] at hcount
      omega
    rw [← eq_filter_of_countP hgone (filter_eraseSlot _ _ _ _)]
    exact hseg₁ p
  -- one slot is left, in the list of the second page, which may be the same one
  · set p₁ := (s.tbs t).pageAddr 1 / targetPageSize with hp₁
    have hleft : ∀ p, (eraseSlot A.page t p₀ p).countP (fun v => v.tb == t) =
        if p = p₁ then 1 else 0 := by
      intro p
      have hcount := hcount₁ p
      rw [hw.countP_page ht] at hcount
      simp only [ne_eq, h1, not_false_eq_true, true_and, ← hp₀, ← hp₁] at hcount
      omega
    have hmem : ∃ v ∈ eraseSlot A.page t p₀ p₁, v.tb = t := by
      have hpos : 0 < (eraseSlot A.page t p₀ p₁).countP (fun v => v.tb == t) := by
        rw [hleft, if_pos rfl]
        exact Nat.one_pos
      obtain ⟨v, hv, hvt⟩ := List.countP_pos_iff.mp hpos
      exact ⟨v, hv, beq_iff_eq.mp hvt⟩
    have hsub := eraseSlot_sublist A.page t p₀
    have hbound : (eraseSlot A.page t p₀ p₁).length ≤ s₂.loopBound := by
      have hle := (hsub p₁).length_le.trans (hlen p₁)
      simpa [ExecState.loopBound, hinfo₁.nbTbs] using hle
    obtain ⟨s₃, hrun₃, hhash₃, hjmp₃, hinfo₃, hmem₃, hseg₃, hkeep₃⟩ := unlinkPage_spec hseg₁
      ((hw.pageNodup p₁).sublist (hsub p₁))
      (fun p' v h h' => hw.page_disjoint ((hsub p₁).subset h) ((hsub p').subset h')) hmem hbound
    refine ⟨s₃, ?_, hhash₁.trans hhash₃, hjmp₁.trans hjmp₃, hinfo₁.trans hinfo₃,
      hmem₁.trans hmem₃, fun p => ?_, fun v hv => (hkeep₃ v hv).trans (hkeep₁ v hv)⟩
    · rw [if_pos ⟨h1, h1⟩, hrun₃]
    have hgone : (eraseSlot (eraseSlot A.page t p₀) t p₁ p).countP (fun v => v.tb == t) = 0 := by
      have hcount := countP_eraseSlot hmem p
      rw [hleft] at hcount
      omega
    rw [← eq_filter_of_countP hgone
      ((filter_eraseSlot _ _ _ _).trans (filter_eraseSlot _ _ _ _))]
    exact hseg₃ p

/-! ### The jumps -/

/-- Erasing both slots of a block from a list of slots removes the block from it. -/
theorem erase_slots (hnd : l.Nodup) (hlt : ∀ v ∈ l, v.n < 2) (t : ℕ) :
    (l.erase ⟨t, 0⟩).erase ⟨t, 1⟩ = l.filter (fun v => !(v.tb == t)) := by
  rw [hnd.erase_eq_filter, (hnd.filter _).erase_eq_filter, List.filter_filter]
  refine List.filter_congr (fun v hv => ?_)
  have hn := hlt v hv
  obtain ⟨u, n⟩ := v
  have h01 : n = 0 ∨ n = 1 := by simp only at hn; omega
  rw [Bool.eq_iff_iff]
  by_cases hu : u = t
  · rcases h01 with rfl | rfl <;> simp [hu]
  · rcases h01 with rfl | rfl <;> simp [hu]

/-- The jump part of `tb_phys_invalidate`: the slots of the block leave the lists they are in,
    and the jumps into the block are reset. -/
theorem unlinkJumps_spec (hw : TbWf s A)
    (hseg : ∀ o ∈ A.valid, Seg (jmpNext s) (jmpNext s ⟨o, 2⟩) (A.jmp o) (some ⟨o, 2⟩))
    (ht : t ∈ A.valid) :
    ∃ s₁ s₂ s₃, tbJmpRemove s t 0 = some s₁ ∧ tbJmpRemove s₁ t 1 = some s₂ ∧
      resetJumps s₂.loopBound s₂ (s₂.tbs t).jmpFirst = some s₃ ∧
      (∀ o ∈ A.valid.erase t, Seg (jmpNext s₃) (jmpNext s₃ ⟨o, 2⟩)
        ((A.jmp o).filter (fun v => !(v.tb == t))) (some ⟨o, 2⟩)) ∧
      (∀ v ∈ A.jmp t, v.tb ≠ t → jmpNext s₃ v = none ∧ jumpReset s₃ v) ∧
      (∀ v ∉ A.jmp t, (s₃.tbs v.tb).tbNext v.n = (s.tbs v.tb).tbNext v.n) ∧
      (∀ v, v.n < 2 → (∀ o ∈ A.valid, v ∉ A.jmp o) → v.tb ≠ t → jmpNext s₃ v = jmpNext s v) ∧
      JmpFrame s s₃ := by
  have hlt : ∀ o ∈ A.valid, ∀ v ∈ A.jmp o, v.n < 2 := fun o ho v hv => (hw.jmpMem o ho v hv).2.1
  have hlen : ∀ o ∈ A.valid, (A.jmp o).length < s.loopBound := by
    intro o ho
    have := hw.jmp_length ho
    simp only [ExecState.loopBound]
    omega
  obtain ⟨s₁, hrun₁, hseg₁, hnone₁, hfree₁, htgt₁, hframe₁⟩ := tbJmpRemove_spec (n := 0) hseg
    hw.jmpNodup hlt hw.jmpDisj (by omega)
    (fun h => (hw.jmpFree ⟨t, 0⟩ ht (by simp) h).1) hlen
  have hbound₁ : s₁.loopBound = s.loopBound := by simp [ExecState.loopBound, hframe₁.info.nbTbs]
  -- the second removal works on the lists the first one left
  have hsub₁ : ∀ o v, v ∈ (A.jmp o).erase ⟨t, 0⟩ → v ∈ A.jmp o :=
    fun o v hv => List.mem_of_mem_erase hv
  obtain ⟨s₂, hrun₂, hseg₂, hnone₂, hfree₂, htgt₂, hframe₂⟩ :=
    tbJmpRemove_spec (n := 1) hseg₁ (fun o ho => (hw.jmpNodup o ho).erase _)
    (fun o ho v hv => hlt o ho v (hsub₁ o v hv))
    (fun o ho o' ho' v h h' => hw.jmpDisj o ho o' ho' v (hsub₁ o v h) (hsub₁ o' v h')) (by omega)
    (fun h => by
      have hout : ∀ o ∈ A.valid, (⟨t, 1⟩ : TbPtr) ∉ A.jmp o := by
        intro o ho hm
        exact h o ho ((List.mem_erase_of_ne (by simp)).mpr hm)
      rw [hfree₁ ⟨t, 1⟩ (by simp) hout]
      exact (hw.jmpFree ⟨t, 1⟩ ht (by simp) hout).1)
    (fun o ho => by
      have := (List.erase_sublist (a := (⟨t, 0⟩ : TbPtr)) (l := A.jmp o)).length_le
      have := hlen o ho
      omega)
  have hlist : ∀ o ∈ A.valid, ((A.jmp o).erase ⟨t, 0⟩).erase ⟨t, 1⟩ =
      (A.jmp o).filter (fun v => !(v.tb == t)) :=
    fun o ho => erase_slots (hw.jmpNodup o ho) (hlt o ho) t
  have hseg₂' : ∀ o ∈ A.valid, Seg (jmpNext s₂) (jmpNext s₂ ⟨o, 2⟩)
      ((A.jmp o).filter (fun v => !(v.tb == t))) (some ⟨o, 2⟩) :=
    fun o ho => hlist o ho ▸ hseg₂ o ho
  have hfirst : (s₂.tbs t).jmpFirst = jmpNext s₂ ⟨t, 2⟩ := rfl
  have hbound₂ : s₂.loopBound = s.loopBound := by
    simp [ExecState.loopBound, hframe₂.info.nbTbs, hframe₁.info.nbTbs]
  have hlen₂ : ((A.jmp t).filter (fun v => !(v.tb == t))).length < s₂.loopBound := by
    have := List.length_filter_le (fun v : TbPtr => !(v.tb == t)) (A.jmp t)
    have := hlen t ht
    omega
  obtain ⟨s₃, hrun₃, hin, hout, hframe₃⟩ := resetJumps_spec (hseg₂' t ht)
    ((hw.jmpNodup t ht).filter _) (fun v hv => hlt t ht v (List.mem_filter.mp hv).1) hlen₂
  have hframe : JmpFrame s s₃ := (hframe₁.trans hframe₂).trans hframe₃
  have howner : ∀ o : ℕ, (⟨o, 2⟩ : TbPtr) ∉ A.jmp t :=
    fun o hm => absurd (hlt t ht _ hm) (by simp)
  have hnot : ∀ v, v ∉ A.jmp t → v ∉ (A.jmp t).filter (fun v => !(v.tb == t)) :=
    fun v hv hm => hv (List.mem_filter.mp hm).1
  refine ⟨s₁, s₂, s₃, hrun₁, hrun₂, hrun₃, fun o ho => ?_, fun v hv hvt => ?_, fun v hv => ?_,
    fun v hvn hv hvt => ?_, hframe⟩
  -- another block's list is disjoint from the one that was reset
  · obtain ⟨hot, ho⟩ := Finset.mem_erase.mp ho
    rw [(hout _ (hnot _ (howner o))).1]
    refine (hseg₂' o ho).congr (fun v hv => (hout v (hnot v ?_)).1)
    intro hm
    exact hot (hw.jmpDisj t ht o ho v hm (List.mem_filter.mp hv).1)
  · obtain ⟨h₁, h₂⟩ := hin v (List.mem_filter.mpr ⟨hv, by simpa using hvt⟩)
    refine ⟨h₁, fun _ => ?_⟩
    rw [h₂, hframe₃.info.info]
  · rw [(hout v (hnot v hv)).2, htgt₂, htgt₁]
  · have hv₁ : ∀ o ∈ A.valid, v ∉ (A.jmp o).erase ⟨t, 0⟩ :=
      fun o ho hm => hv o ho (hsub₁ o v hm)
    rw [(hout v (hnot v (hv t ht))).1, hfree₂ v hvn hv₁, hfree₁ v hvn hv]

/-! ### Invalidating -/

/-- The invariant only reads jump links, jump targets and the data of linked blocks. -/
theorem TbWf.congr_valid (hw : TbWf s A)
    (hinfo : ∀ t ∈ A.valid, (s'.tbs t).toTbInfo = (s.tbs t).toTbInfo) (hn : s.nbTbs ≤ s'.nbTbs)
    (hj : SameJmp s s') : TbWf s' A := by
  constructor
  case lt => exact fun t ht => (hw.lt t ht).trans_le hn
  case page0 => intro t ht; rw [hinfo t ht]; exact hw.page0 t ht
  case hashNodup => exact hw.hashNodup
  case memHash =>
    intro h t
    rw [hw.memHash h t]
    exact and_congr_right (fun ht => by rw [hinfo t ht])
  case pageNodup => exact hw.pageNodup
  case memPage =>
    intro p v
    rw [hw.memPage p v]
    exact and_congr_right (fun hv => by rw [hinfo v.tb hv])
  case jmpNodup => exact hw.jmpNodup
  case jmpMem => intro t ht v hv; rw [hinfo t ht, hj.target]; exact hw.jmpMem t ht v hv
  case jmpDisj => exact hw.jmpDisj
  case jmpFree =>
    intro v hv hn hout
    unfold jumpReset
    rw [hj.next, hinfo _ hv, hj.target]
    exact hw.jmpFree v hv hn hout

theorem TbWf.congr (hw : TbWf s A) (hi : SameInfo s s') (hj : SameJmp s s') : TbWf s' A :=
  hw.congr_valid (fun t _ => hi.info t) hi.nbTbs.ge hj

/-- The lists without a block are in order, if its jumps out are forgotten, the jumps into it are
    reset, and all others are as they were. -/
theorem TbWf.remove (hw : TbWf s A) (ht : t ∈ A.valid) (hinfo : SameInfo s s')
    (hreset : ∀ v ∈ A.jmp t, v.tb ≠ t → jmpNext s' v = none ∧ jumpReset s' v)
    (htgt : ∀ v ∉ A.jmp t, (s'.tbs v.tb).tbNext v.n = (s.tbs v.tb).tbNext v.n)
    (hfree : ∀ v, v.n < 2 → (∀ o ∈ A.valid, v ∉ A.jmp o) → v.tb ≠ t → jmpNext s' v = jmpNext s v) :
    TbWf s' (A.remove t) := by
  have hmemJ : ∀ {u v}, v ∈ (A.remove t).jmp u → v ∈ A.jmp u ∧ v.tb ≠ t := by
    intro u v hv
    obtain ⟨hv, hvt⟩ := List.mem_filter.mp hv
    exact ⟨hv, by simpa using hvt⟩
  have hmemV : ∀ {u}, u ∈ (A.remove t).valid → u ≠ t ∧ u ∈ A.valid :=
    fun hu => mem_remove_valid.mp hu
  constructor
  case lt => intro u hu; rw [hinfo.nbTbs]; exact hw.lt u (hmemV hu).2
  case page0 => intro u hu; rw [hinfo.info]; exact hw.page0 u (hmemV hu).2
  case hashNodup => exact fun h => (hw.hashNodup h).filter _
  case memHash =>
    intro h u
    rw [hinfo.info]
    show u ∈ (A.hash h).filter _ ↔ _
    rw [List.mem_filter, hw.memHash, mem_remove_valid]
    simp only [Bool.not_eq_true', beq_eq_false_iff_ne, ne_eq]
    tauto
  case pageNodup => exact fun p => (hw.pageNodup p).filter _
  case memPage =>
    intro p v
    rw [hinfo.info]
    show v ∈ (A.page p).filter _ ↔ _
    rw [List.mem_filter, hw.memPage, mem_remove_valid]
    simp only [Bool.not_eq_true', beq_eq_false_iff_ne, ne_eq]
    tauto
  case jmpNodup => exact fun u hu => (hw.jmpNodup u (hmemV hu).2).filter _
  case jmpMem =>
    intro u hu v hv
    obtain ⟨hut, hu⟩ := hmemV hu
    obtain ⟨hv, hvt⟩ := hmemJ hv
    obtain ⟨hvalid, hn, htg⟩ := hw.jmpMem u hu v hv
    refine ⟨mem_remove_valid.mpr ⟨hvt, hvalid⟩, hn, ?_⟩
    -- a jump into another block is not one of those that were reset
    have hvj : v ∉ A.jmp t := fun hm => hut (hw.jmpDisj t ht u hu v hm hv)
    rw [hinfo.info, htgt v hvj]
    exact htg
  case jmpDisj =>
    intro u hu u' hu' v hv hv'
    exact hw.jmpDisj u (hmemV hu).2 u' (hmemV hu').2 v (hmemJ hv).1 (hmemJ hv').1
  case jmpFree =>
    intro v hv hn hout
    obtain ⟨hvt, hvalid⟩ := hmemV hv
    by_cases hvj : v ∈ A.jmp t
    · exact hreset v hvj hvt
    · have hfr : ∀ o ∈ A.valid, v ∉ A.jmp o := by
        intro o ho hm
        by_cases hot : o = t
        · subst hot; exact hvj hm
        · exact hout o (mem_remove_valid.mpr ⟨hot, ho⟩)
            (List.mem_filter.mpr ⟨hm, by simpa using hvt⟩)
      obtain ⟨h₁, h₂⟩ := hw.jmpFree v hvalid hn hfr
      rw [hfree v hn hfr hvt]
      refine ⟨h₁, ?_⟩
      unfold jumpReset
      rw [hinfo.info, htgt v hvj]
      exact h₂

/-- `tb_phys_invalidate` on a linked block takes it out of every list, and of nothing else. -/
theorem tbPhysInvalidate_spec (hr : TbRepr s A) (hw : TbWf s A) (ht : t ∈ A.valid) :
    ∃ s', tbPhysInvalidate s t noPage = some s' ∧ TbRepr s' (A.remove t) ∧
      TbWf s' (A.remove t) ∧ SameInfo s s' ∧ ShrinkMem s s' ∧
      ∀ v : TbPtr, v.tb = t → pageNext s' v = pageNext s v := by
  -- the hash chain
  obtain ⟨k, x, hrun₁, hhash⟩ := tbRemove_spec hr.hash
    hw.hashNodup
    (fun h' u hu hu' => ((hw.memHash _ u).mp hu').2.symm.trans ((hw.memHash _ u).mp hu).2)
    ((hw.memHash _ t).mpr ⟨ht, rfl⟩)
      ((hw.hash_length _).trans (by simp [ExecState.loopBound]; omega))
  set s₁ := writeHash s (tbPhysHashFunc (s.tbs t).physPc) k x with hs₁
  have hi₁ : SameInfo s s₁ := .writeHash s _ k x
  have hj₁ : SameJmp s s₁ := .writeHash s _ k x
  have hp₁ : SamePage s s₁ := .writeHash s _ k x
  have hm₁ : ShrinkMem s s₁ := .writeHash s _ k x
  have hw₁ : TbWf s₁ A := hw.congr hi₁ hj₁
  -- the page lists
  obtain ⟨s₂, hrun₂, hh₂, hj₂, hi₂, hm₂, hpage, hkeep⟩ := unlinkPages_spec hw₁.pageWf
    (fun p => by rw [hp₁.next, hp₁.head]; exact hr.page p) ht
  have hw₂ : TbWf s₂ A := hw₁.congr hi₂ hj₂
  -- the jump cache
  set s₃ := tbJmpCacheRemove s₂ t with hs₃
  have hj₃ : SameJmp s s₃ := (hj₁.trans hj₂).trans ⟨rfl, fun _ => rfl⟩
  have hi₃ : SameInfo s s₃ := (hi₁.trans hi₂).trans ⟨fun _ => rfl, rfl, rfl, rfl, rfl⟩
  have hw₃ : TbWf s₃ A := hw.congr hi₃ hj₃
  -- the jumps
  obtain ⟨s₄, s₅, s₆, hrun₄, hrun₅, hrun₆, hjmp, hreset, htgt, hfree, hframe⟩ :=
    unlinkJumps_spec hw₃ (fun o ho => by rw [hj₃.next]; exact hr.jmp o ho) ht
  set s₇ := modTb s₆ t (fun t' => { t' with jmpFirst := some ⟨t, 2⟩ }) with hs₇
  have hh₇ : SameHash s₆ s₇ := .modTb s₆ t (fun _ => rfl)
  have hp₇ : SamePage s₆ s₇ := .modTb s₆ t (fun _ => rfl)
  have hi₇ : SameInfo s s₇ := (hi₃.trans hframe.info).trans (.modTb s₆ t (fun _ => rfl))
  have hm₃ : ShrinkMem s s₃ := (hm₁.trans hm₂).trans ⟨rfl, fun _ => rfl, fun _ => .inr rfl⟩
  have hm₇ : ShrinkMem s s₇ := (hm₃.trans hframe.mem).trans (.modTb s₆ t _)
  have hn₇ : ∀ v : TbPtr, v ≠ ⟨t, 2⟩ → jmpNext s₇ v = jmpNext s₆ v := by
    intro v hv
    obtain ⟨u, n⟩ := v
    by_cases hu : u = t
    · subst hu
      have hn : n ≠ 2 := by rintro rfl; exact hv rfl
      simp [hs₇, jmpNext, hn]
    · simp [hs₇, jmpNext, hu]
  have htgt₇ : ∀ u, (s₇.tbs u).tbNext = (s₆.tbs u).tbNext :=
    fun u => modTb_field s₆ t u _ (fun tb => tb.tbNext) (fun _ => rfl)
  have hinfo₇ : ∀ u, (s₇.tbs u).toTbInfo = (s.tbs u).toTbInfo := hi₇.info
  have hkeep₇ : ∀ v : TbPtr, v.tb = t → pageNext s₇ v = pageNext s v := by
    intro v hv
    rw [hp₇.next, hframe.page.next]
    exact (hkeep v hv).trans (congrFun hp₁.next v)
  refine ⟨s₇, ?_, ⟨fun h => ?_, fun p => ?_, fun o ho => ?_⟩, ?_, hi₇, hm₇, hkeep₇⟩
  · unfold tbPhysInvalidate
    rw [hrun₁]
    simp only [Option.bind_eq_bind, Option.bind_some, hrun₂, ← hs₃, hrun₄, hrun₅, hrun₆, ← hs₇]
  · rw [hh₇.next, hh₇.head, hframe.hash.next, hframe.hash.head]
    show Seg (hashNext s₂) (s₂.tbPhysHash h) ((A.hash h).filter _) none
    rw [hh₂.next, hh₂.head]
    exact hhash h
  · rw [hp₇.next, hp₇.head, hframe.page.next, hframe.page.head]
    exact hpage p
  · obtain ⟨hot, ho⟩ := mem_remove_valid.mp ho
    rw [hn₇ ⟨o, 2⟩ (by rintro ⟨⟩; exact hot rfl)]
    refine (hjmp o (Finset.mem_erase.mpr ⟨hot, ho⟩)).congr (fun v hv => hn₇ v ?_)
    rintro rfl
    have := (hw.jmpMem o ho _ (List.mem_filter.mp hv).1).2.1
    simp at this
  · refine hw.remove ht hi₇ (fun v hv hvt => ?_) (fun v hv => ?_) (fun v hn hfr hvt => ?_)
    · obtain ⟨hnone, hres⟩ := hreset v hv hvt
      refine ⟨(hn₇ v fun h => hvt (h ▸ rfl)).trans hnone, ?_⟩
      unfold jumpReset
      rw [hinfo₇, htgt₇, ← (hi₃.trans hframe.info).info]
      exact hres
    · rw [htgt₇, htgt v hv, hj₃.target]
    · rw [hn₇ v fun h => hvt (h ▸ rfl), hfree v hn hfr hvt, hj₃.next]

end Qemu.Exec
