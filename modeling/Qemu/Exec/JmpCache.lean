import Qemu.Exec.Tb

namespace Qemu.Exec

open Function

/-!
# The cache of translation blocks by virtual address (`exec-all.h`, `cpu-exec.c`, `exec.c`)

Every CPU keeps the blocks it ran last in `tb_jmp_cache`, at a folding hash of their program
counter.  When the mapping of a page changes, `tlb_flush_jmp_cache` clears the two groups of
entries that a second hash gives for the page and for the one before it.

The page size and the width of a `target_ulong` are parameters: `P` is `TARGET_PAGE_BITS`, at least
`TB_JMP_PAGE_BITS`, and `W` is `TARGET_LONG_BITS`.

* `tbJmpCacheHashPage_of_page` — the page hash is a function of the page number;
* `tbJmpCacheHashFunc_group` — a block's entry lies in the group of its page;
* `JmpInv` — every entry is where the hash of its block's program counter puts it;
* `tlbFlushJmpCache_clears` — after a flush nothing of the two pages is left.
-/

/-! ### Constants and hashes -/

/-- `TB_JMP_PAGE_BITS` -/
abbrev tbJmpPageBits : ℕ := 6

/-- `TB_JMP_PAGE_SIZE` -/
abbrev tbJmpPageSize : ℕ := 64

/-- `TB_JMP_ADDR_MASK` -/
abbrev tbJmpAddrMask : ℕ := 63

/-- `TB_JMP_PAGE_MASK` -/
abbrev tbJmpPageMask : ℕ := 4032

/-- `TB_JMP_CACHE_SIZE` -/
abbrev tbJmpCacheSize : ℕ := 4096

variable {W : ℕ}

/-- The folded address both hashes start from. -/
def tbJmpFold (P : ℕ) (pc : BitVec W) : BitVec W := pc ^^^ (pc >>> (P - tbJmpPageBits))

/-- `tb_jmp_cache_hash_page`. -/
def tbJmpCacheHashPage (P : ℕ) (pc : BitVec W) : ℕ :=
  (tbJmpFold P pc >>> (P - tbJmpPageBits)).toNat &&& tbJmpPageMask

/-- `tb_jmp_cache_hash_func`. -/
def jmpCacheHashFunc (P : ℕ) (pc : BitVec W) : ℕ :=
  ((tbJmpFold P pc >>> (P - tbJmpPageBits)).toNat &&& tbJmpPageMask) |||
    ((tbJmpFold P pc).toNat &&& tbJmpAddrMask)

/-- The page an address lies in. -/
def pageNumber (P : ℕ) (pc : BitVec W) : BitVec W := pc >>> P

/-- A bit of the page hash is a bit of the page number folded onto a higher one. -/
theorem testBit_tbJmpCacheHashPage (P : ℕ) (hP : tbJmpPageBits ≤ P) (pc : BitVec W) (k : ℕ) :
    (tbJmpCacheHashPage P pc).testBit k = (tbJmpPageMask.testBit k && tbJmpPageBits ≤ k &&
      ((pageNumber P pc).getLsbD (k - tbJmpPageBits) ^^
        (pageNumber P pc).getLsbD (k - tbJmpPageBits + (P - tbJmpPageBits)))) := by
  simp only [tbJmpCacheHashPage, tbJmpFold, pageNumber, Nat.testBit_and, BitVec.testBit_toNat,
    BitVec.getLsbD_ushiftRight, BitVec.getLsbD_xor]
  by_cases hk : tbJmpPageBits ≤ k
  -- the shift by the page bits less six takes bit `k` to the page bits and beyond
  · have hlow : P - tbJmpPageBits + k = P + (k - tbJmpPageBits) := by omega
    have hhigh : P - tbJmpPageBits + (P - tbJmpPageBits + k) =
        P + (k - tbJmpPageBits + (P - tbJmpPageBits)) := by omega
    rw [hlow, show P - tbJmpPageBits + (P + (k - tbJmpPageBits)) =
      P + (k - tbJmpPageBits + (P - tbJmpPageBits)) by omega]
    simp [hk, Bool.and_comm]
  -- the mask has none of the six low bits
  · have hmask : tbJmpPageMask.testBit k = false :=
      (by decide : ∀ k : Fin 6, tbJmpPageMask.testBit k = false) ⟨k, Nat.lt_of_not_le hk⟩
    rw [hmask, Bool.and_false, Bool.false_and, Bool.false_and]

variable {P : ℕ}

theorem tbJmpCacheHashPage_of_page (hP : tbJmpPageBits ≤ P) {pc pc' : BitVec W}
    (h : pageNumber P pc = pageNumber P pc') :
    tbJmpCacheHashPage P pc = tbJmpCacheHashPage P pc' := by
  apply Nat.eq_of_testBit_eq
  intro k
  rw [testBit_tbJmpCacheHashPage P hP, testBit_tbJmpCacheHashPage P hP, h]

theorem tbJmpCacheHashPage_mod (P : ℕ) (pc : BitVec W) :
    tbJmpCacheHashPage P pc % tbJmpPageSize = 0 := by
  rw [show tbJmpPageSize = 2 ^ 6 from rfl, ← Nat.and_two_pow_sub_one_eq_mod, tbJmpCacheHashPage,
    Nat.and_assoc]
  exact Nat.and_zero _

theorem tbJmpCacheHashPage_le (P : ℕ) (pc : BitVec W) :
    tbJmpCacheHashPage P pc + tbJmpPageSize ≤ tbJmpCacheSize := by
  have : tbJmpCacheHashPage P pc ≤ 4032 := Nat.and_le_right
  exact Nat.add_le_add_right this 64

/-- A block's entry lies in the group of its page. -/
theorem tbJmpCacheHashFunc_group (P : ℕ) (pc : BitVec W) :
    tbJmpCacheHashPage P pc ≤ jmpCacheHashFunc P pc ∧
      jmpCacheHashFunc P pc < tbJmpCacheHashPage P pc + tbJmpPageSize := by
  have hlow : (tbJmpFold P pc).toNat &&& tbJmpAddrMask < 2 ^ 6 :=
    lt_of_le_of_lt Nat.and_le_right (by decide)
  have hdiv : tbJmpCacheHashPage P pc = 2 ^ 6 * (tbJmpCacheHashPage P pc / 2 ^ 6) :=
    (Nat.mul_div_cancel' (Nat.dvd_of_mod_eq_zero (tbJmpCacheHashPage_mod P pc))).symm
  -- the group's start has no bit in common with the place within it
  have hor : jmpCacheHashFunc P pc =
      tbJmpCacheHashPage P pc + ((tbJmpFold P pc).toNat &&& tbJmpAddrMask) := by
    rw [jmpCacheHashFunc, ← tbJmpCacheHashPage, hdiv, Nat.two_pow_add_eq_or_of_lt hlow]
  rw [hor]
  exact ⟨Nat.le_add_right _ _, Nat.add_lt_add_left hlow _⟩

/-! ### The cache and the blocks -/

/-- The blocks' program counters, as far as blocks are in use, and every CPU's cache. -/
structure JmpState (W : ℕ) where
  nbTbs : ℕ
  tbPc : ℕ → BitVec W
  tbJmpCache : ℕ → ℕ → Option ℕ

/-- No block, and every cache empty. -/
def JmpState.init (W : ℕ) : JmpState W := ⟨0, fun _ => 0, fun _ _ => none⟩

/-- `memset(&env->tb_jmp_cache[i], 0, n * sizeof(TranslationBlock *))`. -/
def memsetJmpCache (s : JmpState W) (env i n : ℕ) : JmpState W :=
  { s with
    tbJmpCache := update s.tbJmpCache env
      (fun j => if i ≤ j ∧ j < i + n then none else s.tbJmpCache env j) }

/-- `tlb_flush_jmp_cache`. -/
def tlbFlushJmpCache (P : ℕ) (s : JmpState W) (env : ℕ) (addr : BitVec W) : JmpState W :=
  let i := tbJmpCacheHashPage P (addr - BitVec.ofNat W (2 ^ P))
  let s := memsetJmpCache s env i tbJmpPageSize
  let i := tbJmpCacheHashPage P addr
  memsetJmpCache s env i tbJmpPageSize

/-- What `tlb_flush` does to the cache. -/
def tlbFlush (s : JmpState W) (env : ℕ) : JmpState W := memsetJmpCache s env 0 tbJmpCacheSize

/-- What `tb_flush` does to the blocks and to the cache of every CPU. -/
def jmpTbFlush (s : JmpState W) : JmpState W :=
  { s with
    nbTbs := 0
    tbJmpCache := fun env j => if j < tbJmpCacheSize then none else s.tbJmpCache env j }

/-- `tb_gen_code`: take the next block, after a flush when there is none (`full`). -/
def jmpGenCode (s : JmpState W) (pc : BitVec W) (full : Bool) : JmpState W × ℕ :=
  let s := if full then jmpTbFlush s else s
  ({ s with nbTbs := s.nbTbs + 1, tbPc := update s.tbPc s.nbTbs pc }, s.nbTbs)

/-- `tb_phys_invalidate`: forget the block in the cache of every CPU. -/
def jmpPhysInvalidate (P : ℕ) (s : JmpState W) (tb : ℕ) : JmpState W :=
  let h := jmpCacheHashFunc P (s.tbPc tb)
  { s with
    tbJmpCache := fun env i =>
      if i = h ∧ s.tbJmpCache env h = some tb then none else s.tbJmpCache env i }

/-- `tb_free`: give the block back if it is the last one. -/
def jmpTbFree (s : JmpState W) (tb : ℕ) : JmpState W :=
  if 0 < s.nbTbs ∧ tb = s.nbTbs - 1 then { s with nbTbs := s.nbTbs - 1 } else s

/-- `tb_find_slow`.  `found` is the first block of the physical hash chain whose pages, `cs_base`
    and `flags` are right; the program counter is compared here. -/
def tbFindSlow (P : ℕ) (s : JmpState W) (env : ℕ) (pc : BitVec W) (found : Option ℕ)
    (full : Bool) : JmpState W :=
  let r := match found with
    | some t => if t < s.nbTbs ∧ s.tbPc t = pc then (s, t) else jmpGenCode s pc full
    | none => jmpGenCode s pc full
  -- we add the TB in the virtual pc hash table
  { r.1 with
    tbJmpCache := update r.1.tbJmpCache env
      (update (r.1.tbJmpCache env) (jmpCacheHashFunc P pc) (some r.2)) }

/-! ### Runs -/

/-- A call that touches the blocks or the cache. -/
inductive JmpOp (W : ℕ) where
  /-- `tb_find_fast`, for the CPU and the program counter it is about to run. -/
  | find (env : ℕ) (pc : BitVec W) (hit : Bool) (found : Option ℕ) (full : Bool)
  /-- `tb_gen_code`, called for a block that is not looked up. -/
  | genCode (pc : BitVec W) (full : Bool)
  /-- `tb_phys_invalidate`. -/
  | physInvalidate (tb : ℕ)
  /-- The end of `cpu_exec_nocache`: `tb_phys_invalidate`, then `tb_free`. -/
  | discard (tb : ℕ)
  /-- `tb_flush`. -/
  | tbFlush
  /-- `tlb_flush`. -/
  | tlbFlush (env : ℕ)
  /-- `tlb_flush_page`. -/
  | tlbFlushPage (env : ℕ) (addr : BitVec W)

/-- `tb_find_fast`.  `hit` says that the entry's block is there and has the right program counter,
    `cs_base` and `flags`. -/
def tbFindFast (P : ℕ) (s : JmpState W) (env : ℕ) (pc : BitVec W) (hit : Bool) (found : Option ℕ)
    (full : Bool) : JmpState W :=
  if hit then s else tbFindSlow P s env pc found full

/-- What a call does to the state. -/
def JmpOp.exec (P : ℕ) (s : JmpState W) : JmpOp W → JmpState W
  | .find env pc hit found full => tbFindFast P s env pc hit found full
  | .genCode pc full => (jmpGenCode s pc full).1
  | .physInvalidate tb => jmpPhysInvalidate P s tb
  | .discard tb => jmpTbFree (jmpPhysInvalidate P s tb) tb
  | .tbFlush => jmpTbFlush s
  | .tlbFlush env => Qemu.Exec.tlbFlush s env
  | .tlbFlushPage env addr => tlbFlushJmpCache P s env addr

/-- The state after a sequence of calls, from the start of the emulator. -/
def jmpRun (P : ℕ) (ops : List (JmpOp W)) : JmpState W := ops.foldl (JmpOp.exec P) (JmpState.init W)

/-- Every entry names a block in use, at the hash of the block's program counter. -/
def JmpInv (P : ℕ) (s : JmpState W) : Prop :=
  ∀ env i t, s.tbJmpCache env i = some t → t < s.nbTbs ∧ i = jmpCacheHashFunc P (s.tbPc t)

theorem JmpInv.init (P : ℕ) : JmpInv P (JmpState.init W) := by
  intro env i t h
  cases h

theorem jmpCacheHashFunc_lt (P : ℕ) (pc : BitVec W) : jmpCacheHashFunc P pc < tbJmpCacheSize :=
  lt_of_lt_of_le (tbJmpCacheHashFunc_group P pc).2 (tbJmpCacheHashPage_le P pc)

variable {s : JmpState W}

theorem memsetJmpCache_eq_some {env i n env' j t : ℕ}
    (h : (memsetJmpCache s env i n).tbJmpCache env' j = some t) :
    s.tbJmpCache env' j = some t ∧ (env' = env → ¬ (i ≤ j ∧ j < i + n)) := by
  by_cases henv : env' = env
  · subst henv
    simp only [memsetJmpCache, update_self] at h
    split at h
    · cases h
    · next hout => exact ⟨h, fun _ => hout⟩
  · simp only [memsetJmpCache, update_of_ne henv] at h
    exact ⟨h, fun heq => absurd heq henv⟩

theorem memsetJmpCache_inv (hs : JmpInv P s) (env i n : ℕ) : JmpInv P (memsetJmpCache s env i n) :=
  fun env' j t h => hs env' j t (memsetJmpCache_eq_some h).1

theorem tlbFlushJmpCache_inv (hs : JmpInv P s) (env : ℕ) (addr : BitVec W) :
    JmpInv P (tlbFlushJmpCache P s env addr) :=
  memsetJmpCache_inv (memsetJmpCache_inv hs _ _ _) _ _ _

theorem jmpTbFlush_eq_none (hs : JmpInv P s) (env i : ℕ) :
    (jmpTbFlush s).tbJmpCache env i = none := by
  simp only [jmpTbFlush]
  split
  · rfl
  · next hi =>
    -- beyond the array there never was an entry
    cases h : s.tbJmpCache env i with
    | none => rfl
    | some t =>
      obtain ⟨-, rfl⟩ := hs env i t h
      exact absurd (jmpCacheHashFunc_lt P _) hi

theorem jmpTbFlush_inv (hs : JmpInv P s) : JmpInv P (jmpTbFlush s) := by
  intro env i t h
  rw [jmpTbFlush_eq_none hs] at h
  cases h

theorem jmpGenCode_spec (s : JmpState W) (pc : BitVec W) (full : Bool) :
    (jmpGenCode s pc full).2 < (jmpGenCode s pc full).1.nbTbs ∧
      (jmpGenCode s pc full).1.tbPc (jmpGenCode s pc full).2 = pc := by
  simp [jmpGenCode]

theorem jmpGenCode_inv (hs : JmpInv P s) (pc : BitVec W) (full : Bool) :
    JmpInv P (jmpGenCode s pc full).1 := by
  have hflush : JmpInv P (if full then jmpTbFlush s else s) := by
    cases full with
    | true => exact jmpTbFlush_inv hs
    | false => exact hs
  intro env i t h
  obtain ⟨ht, hi⟩ := hflush env i t h
  -- an entry names a block below the one taken, whose program counter stays
  simp only [jmpGenCode]
  rw [update_of_ne (Nat.ne_of_lt ht)]
  exact ⟨Nat.lt_succ_of_lt ht, hi⟩

theorem jmpPhysInvalidate_eq_some (hs : JmpInv P s) {tb env i t : ℕ}
    (h : (jmpPhysInvalidate P s tb).tbJmpCache env i = some t) :
    s.tbJmpCache env i = some t ∧ t ≠ tb := by
  simp only [jmpPhysInvalidate] at h
  split at h
  · cases h
  · next hne =>
    refine ⟨h, fun htb => hne ?_⟩
    subst htb
    obtain ⟨-, hi⟩ := hs env i t h
    exact ⟨hi, hi ▸ h⟩

theorem jmpPhysInvalidate_inv (hs : JmpInv P s) (tb : ℕ) : JmpInv P (jmpPhysInvalidate P s tb) :=
  fun env i t h => hs env i t (jmpPhysInvalidate_eq_some hs h).1

theorem discard_inv (hs : JmpInv P s) (tb : ℕ) :
    JmpInv P (jmpTbFree (jmpPhysInvalidate P s tb) tb) := by
  have hinv := jmpPhysInvalidate_inv hs tb
  unfold jmpTbFree
  split
  · next hlast =>
    intro env i t h
    obtain ⟨ht, hi⟩ := hinv env i t h
    have hne := (jmpPhysInvalidate_eq_some hs h).2
    exact ⟨by simp only; omega, hi⟩
  · exact hinv

/-- Entering a block at the hash of its program counter. -/
theorem enter_inv (hs : JmpInv P s) (env : ℕ) {pc : BitVec W} {tb : ℕ} (ht : tb < s.nbTbs)
    (hpc : s.tbPc tb = pc) :
    JmpInv P { s with
      tbJmpCache := update s.tbJmpCache env
        (update (s.tbJmpCache env) (jmpCacheHashFunc P pc) (some tb)) } := by
  intro env' i t h
  by_cases henv : env' = env
  · subst henv
    simp only [update_self] at h
    by_cases hi : i = jmpCacheHashFunc P pc
    · subst hi
      rw [update_self] at h
      cases h
      exact ⟨ht, by rw [hpc]⟩
    · rw [update_of_ne hi] at h
      exact hs _ i t h
  · simp only [update_of_ne henv] at h
    exact hs env' i t h

/-- The block that `tb_find_slow` returns is put where its address hashes to. -/
theorem tbFindSlow_inv (hs : JmpInv P s) (env : ℕ) (pc : BitVec W) (found : Option ℕ)
    (full : Bool) : JmpInv P (tbFindSlow P s env pc found full) := by
  have hgen := enter_inv (jmpGenCode_inv hs pc full) env (jmpGenCode_spec s pc full).1
    (jmpGenCode_spec s pc full).2
  cases found with
  | none => exact hgen
  | some t =>
    simp only [tbFindSlow]
    by_cases ht : t < s.nbTbs ∧ s.tbPc t = pc
    · simp only [if_pos ht]
      exact enter_inv hs env ht.1 ht.2
    · simp only [if_neg ht]
      exact hgen

/-- Every call keeps the entries where the hash puts them. -/
theorem JmpOp.exec_inv (hs : JmpInv P s) (op : JmpOp W) : JmpInv P (op.exec P s) := by
  cases op with
  | find env pc hit found full =>
    cases hit with
    | true => exact hs
    | false => exact tbFindSlow_inv hs env pc found full
  | genCode pc full => exact jmpGenCode_inv hs pc full
  | physInvalidate tb => exact jmpPhysInvalidate_inv hs tb
  | discard tb => exact discard_inv hs tb
  | tbFlush => exact jmpTbFlush_inv hs
  | tlbFlush env => exact memsetJmpCache_inv hs _ _ _
  | tlbFlushPage env addr => exact tlbFlushJmpCache_inv hs env addr

theorem jmpRun_inv (P : ℕ) (ops : List (JmpOp W)) : JmpInv P (jmpRun P ops) := by
  have hstep : ∀ (ops : List (JmpOp W)) (s : JmpState W), JmpInv P s →
      JmpInv P (ops.foldl (JmpOp.exec P) s) := by
    intro ops
    induction ops with
    | nil => exact fun s hs => hs
    | cons op ops ih => exact fun s hs => ih _ (JmpOp.exec_inv hs op)
  exact hstep ops _ (JmpInv.init P)

/-- **A flush for an address clears the blocks of its page and of the preceding one**, for every
    page size of at least `2 ^ 6` and after every sequence of calls. -/
theorem tlbFlushJmpCache_clears {P : ℕ} (hP : tbJmpPageBits ≤ P) (ops : List (JmpOp W))
    (env : ℕ) (addr : BitVec W) (i t : ℕ)
    (h : (tlbFlushJmpCache P (jmpRun P ops) env addr).tbJmpCache env i = some t) :
    pageNumber P ((jmpRun P ops).tbPc t) ≠ pageNumber P addr ∧
      pageNumber P ((jmpRun P ops).tbPc t) ≠ pageNumber P (addr - BitVec.ofNat W (2 ^ P)) := by
  obtain ⟨hfirst, hout⟩ := memsetJmpCache_eq_some h
  obtain ⟨hentry, hout'⟩ := memsetJmpCache_eq_some hfirst
  obtain ⟨-, rfl⟩ := jmpRun_inv P ops env i t hentry
  have hgroup := tbJmpCacheHashFunc_group P ((jmpRun P ops).tbPc t)
  constructor
  · intro hpage
    rw [tbJmpCacheHashPage_of_page hP hpage] at hgroup
    exact hout rfl hgroup
  · intro hpage
    rw [tbJmpCacheHashPage_of_page hP hpage] at hgroup
    exact hout' rfl hgroup

/-- The block at the second byte of a page is entered; a flush for the page itself leaves the
    entry of another page's block alone. -/
theorem tlbFlushJmpCache_clears_other :
    pageNumber 10 ((jmpRun 10 [.find 0 (0x8001#32) false none false]).tbPc 0) ≠
        pageNumber 10 (0x4000#32) ∧
      pageNumber 10 ((jmpRun 10 [.find 0 (0x8001#32) false none false]).tbPc 0) ≠
        pageNumber 10 (0x4000#32 - BitVec.ofNat 32 (2 ^ 10)) :=
  tlbFlushJmpCache_clears (by decide) _ 0 _ (jmpCacheHashFunc 10 (0x8001#32)) 0 (by decide)

end Qemu.Exec
