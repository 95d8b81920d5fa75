import Qemu.Exec.JmpCache

namespace Qemu.Exec

/-!
# Cached blocks and the mapping of pages (`tb_find_fast`, `tb_find_slow`, `tlb_flush_page`)

`tb_find_slow` compares the physical pages of a block with those its addresses are mapped to.
`tb_find_fast` does not: it relies on whoever changes the mapping of a page to flush the page.

* `MapState.Inv` — every cached block lies in the pages that its addresses are mapped to;
* `mapRun_find` — so does the block that a lookup ends with, after every sequence of calls.
-/

variable {W : ℕ}

/-- The blocks with their physical pages (none for a second page of `-1`), and the physical page
    of each virtual page of each CPU. -/
structure MapState (W : ℕ) extends JmpState W where
  pageAddr : ℕ → ℕ × Option ℕ
  phys : ℕ → BitVec W → ℕ

/-- A program counter that a CPU is about to run, and what is not modelled of the lookup. -/
structure Lookup (W : ℕ) where
  env : ℕ
  pc : BitVec W
  hit : Bool
  found : Option ℕ
  full : Bool
  second : Bool

/-- `addr & TARGET_PAGE_MASK` -/
def pageBase (P : ℕ) (addr : BitVec W) : BitVec W := addr >>> P <<< P

namespace MapState

/-- What `get_phys_addr_code` gives for the pages of a block. -/
def pagesAt (P : ℕ) (s : MapState W) (env : ℕ) (pc : BitVec W) (second : Bool) : ℕ × Option ℕ :=
  (s.phys env (pageBase P pc),
    if second then some (s.phys env (pageBase P pc + BitVec.ofNat W (2 ^ P))) else none)

/-- The block lies in the pages that its addresses are mapped to. -/
def Mapped (P : ℕ) (s : MapState W) (env t : ℕ) : Prop :=
  s.pageAddr t = s.pagesAt P env (s.tbPc t) (s.pageAddr t).2.isSome

instance (P : ℕ) (s : MapState W) (env t : ℕ) : Decidable (s.Mapped P env t) :=
  inferInstanceAs (Decidable (_ = _))

/-- `tb_gen_code`, for code in the given pages. -/
def genCode (s : MapState W) (pc : BitVec W) (full : Bool) (pages : ℕ × Option ℕ) :
    MapState W × ℕ :=
  let r := jmpGenCode s.toJmpState pc full
  (⟨r.1, Function.update s.pageAddr r.2 pages, s.phys⟩, r.2)

/-- `tb_find_slow`.  `found` is the block with the right `cs_base` and `flags` that the walk of the
    chain comes to; the program counter and the pages are compared here. -/
def tbFindSlow (P : ℕ) (s : MapState W) (q : Lookup W) : MapState W × ℕ :=
  let r := match q.found.filter fun t => t < s.nbTbs ∧ s.tbPc t = q.pc ∧ s.Mapped P q.env t with
    | some t => (s, t)
    | none => s.genCode q.pc q.full (s.pagesAt P q.env q.pc q.second)
  ({ r.1 with
    tbJmpCache := Function.update r.1.tbJmpCache q.env
      (Function.update (r.1.tbJmpCache q.env) (jmpCacheHashFunc P q.pc) (some r.2)) }, r.2)

/-- `tb_find_fast`.  `hit` says that the entry's block has the right `cs_base` and `flags`. -/
def tbFindFast (P : ℕ) (s : MapState W) (q : Lookup W) : MapState W × ℕ :=
  match (s.tbJmpCache q.env (jmpCacheHashFunc P q.pc)).filter fun t => s.tbPc t = q.pc ∧ q.hit with
  | some t => (s, t)
  | none => s.tbFindSlow P q

end MapState

open MapState

/-! ### Runs -/

/-- A call that touches the blocks, the caches or the mapping. -/
inductive MapOp (W : ℕ) where
  | find (q : Lookup W)
  | genCode (pc : BitVec W) (full : Bool) (pages : ℕ × Option ℕ)
  /-- `tb_phys_invalidate`, with `tb_free` at the end of `cpu_exec_nocache`. -/
  | physInvalidate (tb : ℕ) (free : Bool)
  | tbFlush
  /-- A change of the whole mapping, with `tlb_flush`. -/
  | remap (env : ℕ) (phys : BitVec W → ℕ)
  /-- A change of the mapping of one page, with `tlb_flush_page`. -/
  | remapPage (env : ℕ) (addr : BitVec W) (page : ℕ)

/-- One step. -/
def MapOp.exec (P : ℕ) (s : MapState W) : MapOp W → MapState W
  | .find q => (s.tbFindFast P q).1
  | .genCode pc full pages => (s.genCode pc full pages).1
  | .physInvalidate tb free =>
    let jmp := jmpPhysInvalidate P s.toJmpState tb
    { s with toJmpState := if free then jmpTbFree jmp tb else jmp }
  | .tbFlush => { s with toJmpState := jmpTbFlush s.toJmpState }
  | .remap env phys =>
    ⟨tlbFlush s.toJmpState env, s.pageAddr, Function.update s.phys env phys⟩
  | .remapPage env addr page =>
    ⟨tlbFlushJmpCache P s.toJmpState env (pageBase P addr), s.pageAddr,
      Function.update s.phys env (Function.update (s.phys env) (pageBase P addr) page)⟩

/-- The state after a sequence of calls, from the start of the emulator. -/
def mapRun (P : ℕ) (phys : ℕ → BitVec W → ℕ) (ops : List (MapOp W)) : MapState W :=
  ops.foldl (MapOp.exec P) ⟨JmpState.init W, fun _ => (0, none), phys⟩

/-- Every entry is where the hash puts it, and its block in the pages of the mapping. -/
structure MapState.Inv (P : ℕ) (s : MapState W) : Prop where
  jmp : JmpInv P s.toJmpState
  mapped : ∀ env i t, s.tbJmpCache env i = some t → s.Mapped P env t

/-- An entry that a flush leaves is of neither of the two pages. -/
theorem tlbFlushJmpCache_eq_some {P : ℕ} {s : JmpState W} {env env' i t : ℕ} {addr : BitVec W}
    (hP : tbJmpPageBits ≤ P) (hs : JmpInv P s)
    (h : (tlbFlushJmpCache P s env addr).tbJmpCache env' i = some t) :
    s.tbJmpCache env' i = some t ∧ (env' = env → pageNumber P (s.tbPc t) ≠ pageNumber P addr ∧
      pageNumber P (s.tbPc t) ≠ pageNumber P (addr - BitVec.ofNat W (2 ^ P))) := by
  obtain ⟨hfirst, hout⟩ := memsetJmpCache_eq_some h
  obtain ⟨hentry, hout'⟩ := memsetJmpCache_eq_some hfirst
  obtain ⟨-, rfl⟩ := hs env' i t hentry
  have hgroup := tbJmpCacheHashFunc_group P (s.tbPc t)
  refine ⟨hentry, fun henv => ⟨fun hpage => ?_, fun hpage => ?_⟩⟩
  · exact hout henv (tbJmpCacheHashPage_of_page hP hpage ▸ hgroup)
  · exact hout' henv (tbJmpCacheHashPage_of_page hP hpage ▸ hgroup)

theorem pageNumber_pageBase (P : ℕ) (addr : BitVec W) :
    pageNumber P (pageBase P addr) = pageNumber P addr := by
  ext i hi
  simpa [pageNumber, pageBase] using BitVec.lt_of_getLsbD

variable {P : ℕ} {s s' : MapState W}

theorem MapState.Mapped.congr {env t : ℕ} (h : s.Mapped P env t)
    (hpc : s'.tbPc t = s.tbPc t) (hpages : s'.pageAddr t = s.pageAddr t)
    (hphys : ∀ addr, addr = pageBase P (s.tbPc t) ∨
      addr = pageBase P (s.tbPc t) + BitVec.ofNat W (2 ^ P) → s'.phys env addr = s.phys env addr) :
    s'.Mapped P env t := by
  unfold Mapped pagesAt at *
  rw [hpages, hpc, hphys _ (.inl rfl), hphys _ (.inr rfl)]
  exact h

theorem MapState.Inv.genCode (h : s.Inv P) (pc : BitVec W) (full : Bool)
    (pages : ℕ × Option ℕ) : (s.genCode pc full pages).1.Inv P := by
  refine ⟨jmpGenCode_inv h.jmp pc full, fun env i t ht => ?_⟩
  cases full with
  | true => cases (jmpTbFlush_eq_none h.jmp env i).symm.trans ht
  | false =>
    have hne : t ≠ s.nbTbs := (h.jmp env i t ht).1.ne
    exact (h.mapped env i t ht).congr (Function.update_of_ne hne _ _)
      (Function.update_of_ne hne _ _) fun _ _ => rfl

theorem MapState.Inv.enter (h : s.Inv P) {env t : ℕ} {pc : BitVec W}
    (hlt : t < s.nbTbs) (hpc : s.tbPc t = pc) (ht : s.Mapped P env t) :
    Inv P { s with
      tbJmpCache := Function.update s.tbJmpCache env
        (Function.update (s.tbJmpCache env) (jmpCacheHashFunc P pc) (some t)) } := by
  refine ⟨enter_inv h.jmp env hlt hpc, fun env' i u hu => ?_⟩
  simp only [Function.update_apply, ite_apply] at hu
  split_ifs at hu with henv hi
  · cases hu
    exact henv ▸ ht
  · exact h.mapped env' i u (henv ▸ hu)
  · exact h.mapped env' i u hu

/-- A lookup has kept the invariant, and ended with a block for the program counter that is in the
    right pages. -/
structure MapState.Finds (P : ℕ) (q : Lookup W) (r : MapState W × ℕ) : Prop where
  inv : r.1.Inv P
  pc : r.1.tbPc r.2 = q.pc
  mapped : r.1.Mapped P q.env r.2

/-- `tb_find_slow` finds a block for the address. -/
theorem MapState.Inv.findSlow (h : s.Inv P) (q : Lookup W) : Finds P q (s.tbFindSlow P q) := by
  unfold MapState.tbFindSlow
  cases hfound : q.found.filter fun t => t < s.nbTbs ∧ s.tbPc t = q.pc ∧ s.Mapped P q.env t with
  | some t =>
    obtain ⟨hlt, hpc, ht⟩ := of_decide_eq_true (Option.filter_eq_some_iff.mp hfound).2
    exact ⟨h.enter hlt hpc ht, hpc, ht⟩
  | none =>
    obtain ⟨hlt, hpc⟩ := jmpGenCode_spec s.toJmpState q.pc q.full
    have ht : (s.genCode q.pc q.full (s.pagesAt P q.env q.pc q.second)).1.Mapped P q.env
        (s.genCode q.pc q.full (s.pagesAt P q.env q.pc q.second)).2 := by
      cases hsecond : q.second <;> simp [Mapped, pagesAt, MapState.genCode, hpc]
    exact ⟨(h.genCode q.pc q.full _).enter hlt hpc ht, hpc, ht⟩

theorem MapState.Inv.find (h : s.Inv P) (q : Lookup W) : Finds P q (s.tbFindFast P q) := by
  unfold MapState.tbFindFast
  split
  · next t hcached =>
    obtain ⟨hentry, ht⟩ := Option.filter_eq_some_iff.mp hcached
    exact ⟨h, (of_decide_eq_true ht).1, h.mapped q.env _ t hentry⟩
  · exact h.findSlow q

/-- A step keeps the invariant. -/
theorem MapOp.exec_inv (hP : tbJmpPageBits ≤ P) (h : s.Inv P) (op : MapOp W) :
    (op.exec P s).Inv P := by
  -- what an operation leaves in the cache was there before it
  cases op with
  | find q => exact (h.find q).inv
  | genCode pc full pages => exact h.genCode pc full pages
  | physInvalidate tb free =>
    have hinv := jmpPhysInvalidate_inv h.jmp tb
    have hmapped : ∀ env i t, (jmpPhysInvalidate P s.toJmpState tb).tbJmpCache env i = some t →
        s.Mapped P env t := fun env i t ht =>
      h.mapped env i t (jmpPhysInvalidate_eq_some h.jmp ht).1
    cases free with
    | false => exact ⟨hinv, hmapped⟩
    | true =>
      refine ⟨discard_inv h.jmp tb, ?_⟩
      simp only [MapOp.exec, jmpTbFree, if_true]
      split
      · exact hmapped
      · exact hmapped
  | tbFlush =>
    exact ⟨jmpTbFlush_inv h.jmp, fun env i t ht => by
      cases (jmpTbFlush_eq_none h.jmp env i).symm.trans ht⟩
  | remap env phys =>
    refine ⟨memsetJmpCache_inv h.jmp _ _ _, fun env' i t ht => ?_⟩
    obtain ⟨hentry, hout⟩ := memsetJmpCache_eq_some ht
    have hlt : i < tbJmpCacheSize := (h.jmp env' i t hentry).2 ▸ jmpCacheHashFunc_lt P _
    have henv : env' ≠ env := fun henv => hout henv ⟨Nat.zero_le i, by omega⟩
    exact (h.mapped env' i t hentry).congr rfl rfl fun addr _ => by simp [MapOp.exec, henv]
  | remapPage env addr page =>
    refine ⟨tlbFlushJmpCache_inv h.jmp _ _, fun env' i t ht => ?_⟩
    obtain ⟨hentry, hout⟩ := tlbFlushJmpCache_eq_some hP h.jmp ht
    refine (h.mapped env' i t hentry).congr rfl rfl fun a ha => ?_
    by_cases henv : env' = env
    · subst henv
      obtain ⟨hfirst, hsecond⟩ := hout rfl
      have hne : a ≠ pageBase P addr := by
        rintro rfl
        rcases ha with heq | heq
        · exact hfirst (by rw [heq, pageNumber_pageBase])
        · exact hsecond (by rw [heq, BitVec.add_sub_cancel, pageNumber_pageBase])
      simp [MapOp.exec, hne]
    · simp [MapOp.exec, henv]

theorem mapRun_inv (hP : tbJmpPageBits ≤ P) (phys : ℕ → BitVec W → ℕ)
    (ops : List (MapOp W)) : (mapRun P phys ops).Inv P :=
  List.foldlRecOn ops _ ⟨JmpInv.init P, fun _ _ _ ht => by cases ht⟩
    fun _ h op _ => MapOp.exec_inv hP h op

/-- **A lookup never ends with a block of another page**: after every sequence of calls in which
    the mapping changes only with a flush, `tb_find_fast` gives a block for the program counter
    whose pages are those that its addresses are mapped to. -/
theorem mapRun_find (hP : tbJmpPageBits ≤ P) (phys : ℕ → BitVec W → ℕ) (ops : List (MapOp W))
    (q : Lookup W) : Finds P q ((mapRun P phys ops).tbFindFast P q) :=
  (mapRun_inv hP phys ops).find q

/-- The code at `0x83fe` ends in the next page, whose mapping changes. -/
theorem mapRun_find_second :
    Finds 10 ⟨0, 0x83fe#32, true, some 0, false, true⟩ ((mapRun 10 (fun _ addr => addr.toNat)
      [.find ⟨0, 0x83fe, true, none, false, true⟩, .remapPage 0 0x8400 7]).tbFindFast 10
        ⟨0, 0x83fe#32, true, some 0, false, true⟩) :=
  mapRun_find (by decide) _ _ _

end Qemu.Exec
