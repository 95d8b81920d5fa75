import Qemu.Lib.PtrList
import Qemu.Lib.Runs
import Mathlib.Algebra.Order.Ring.Int

namespace Qemu.Tcg

open Lib Function

/-!
# Pool memory of the translator (`tcg_malloc`)

Memory is given out from the front of a pool, and given back all at once.  The pools are kept in a
list for the next time.

* `tcgMalloc`, `tcgPoolReset` — the allocator;
* `PoolsSound` — the regions given out are apart, and the list of the pools ends;
* `PoolInv` — the pools in use, and the ones behind them;
* `tcg_pool_sound` — runs in which no big region is made behind a pool in use.

A `long` of the host has 64 bits.
-/

/-- `TCG_POOL_CHUNK_SIZE` -/
def poolChunkSize : Int := 32768

/-- The part of `TCGContext` for pools, which have numbers in the order in which `qemu_malloc` made
them.  `poolCur` and `poolEnd` are places in the data of `poolCurrent`. -/
structure TCGContext where
  size : Nat → Int
  next : Nat → Option Nat
  nbPools : Nat
  poolFirst : Option Nat
  poolCurrent : Option Nat
  poolCur : Int
  poolEnd : Int

/-- Null, or a place in the data of a pool. -/
abbrev PoolPtr := Option (Nat × Int)

/-- A pool is made, and put behind the current one, or first. -/
def newPool (s : TCGContext) (size : Int) (next : Option Nat) : TCGContext :=
  let p := s.nbPools
  { s with
    nbPools := p + 1
    size := update s.size p size
    next := update
      (match s.poolCurrent with
        | some c => update s.next c (some p)
        | none => s.next) p next
    poolFirst := match s.poolCurrent with
      | some _ => s.poolFirst
      | none => some p }

/-- The end of `tcg_malloc_internal`. -/
def takePool (s : TCGContext) (p : Nat) (size : Int) : TCGContext × PoolPtr :=
  ({ s with poolCurrent := some p, poolCur := size, poolEnd := s.size p }, some (p, 0))

/-- `tcg_malloc_internal` -/
def tcgMallocInternal (s : TCGContext) (size : Int) : TCGContext × PoolPtr :=
  if poolChunkSize < size then
    -- big malloc: the current pool is put behind the new one
    takePool (newPool s size s.poolCurrent) s.nbPools size
  else
    match s.poolCurrent with
    | none =>
      match s.poolFirst with
      | none => takePool (newPool s poolChunkSize none) s.nbPools size
      | some p => takePool s p size
    | some c =>
      match s.next c with
      | none => takePool (newPool s poolChunkSize none) s.nbPools size
      | some p => takePool s p size

/-- `(size + sizeof(long) - 1) & ~(sizeof(long) - 1)`, as an `int`. -/
def roundSize (size : BitVec 32) : Int := ((size.toInt + 7) / 8 * 8).bmod (2 ^ 32)

/-- `tcg_malloc` -/
def tcgMalloc (s : TCGContext) (size : BitVec 32) : TCGContext × PoolPtr :=
  let size := roundSize size
  match s.poolCurrent with
  | none =>
    -- `pool_cur` and `pool_end` are null, and a negative size wraps
    if size = 0 then (s, none) else tcgMallocInternal s size
  | some c =>
    if s.poolEnd < s.poolCur + size then tcgMallocInternal s size
    else ({ s with poolCur := s.poolCur + size }, some (c, s.poolCur))

/-- `tcg_pool_reset` -/
def tcgPoolReset (s : TCGContext) : TCGContext :=
  { s with poolCurrent := none, poolCur := 0, poolEnd := 0 }

/-! ### Runs -/

/-- What `tcg_malloc` returned, and the size asked for. -/
structure Region where
  ptr : PoolPtr
  size : Int
deriving DecidableEq

/-- The allocator, and the regions since the last reset. -/
structure PoolRun where
  ctx : TCGContext
  live : List Region

/-- A call of `tcg_malloc` or `tcg_pool_reset`. -/
inductive PoolAction
  | malloc (size : BitVec 32)
  | reset

/-- One call, with the regions that are handed out. -/
def PoolAction.exec (s : PoolRun) : PoolAction → Option PoolRun
  | .malloc size =>
    let r := tcgMalloc s.ctx size
    some ⟨r.1, s.live ++ [⟨r.2, size.toInt⟩]⟩
  | .reset => some ⟨tcgPoolReset s.ctx, []⟩

/-- The start of the program. -/
def PoolRun.start : PoolRun where
  ctx :=
    { size := fun _ => 0
      next := fun _ => none
      nbPools := 0
      poolFirst := none
      poolCurrent := none
      poolCur := 0
      poolEnd := 0 }
  live := []

/-- The region has this place of a pool. -/
def Region.Holds (r : Region) (p : Nat) (i : Int) : Prop :=
  ∃ off, r.ptr = some (p, off) ∧ off ≤ i ∧ i < off + r.size

/-- The bytes of the region are in the data of one pool. -/
def Region.Inside (s : TCGContext) (r : Region) : Prop :=
  0 < r.size →
    ∃ p off, r.ptr = some (p, off) ∧ p < s.nbPools ∧ 0 ≤ off ∧ off + r.size ≤ s.size p

/-- What the allocator promises. -/
structure PoolsSound (s : PoolRun) : Prop where
  apart : s.live.Pairwise fun r r' => ∀ p i, ¬(r.Holds p i ∧ r'.Holds p i)
  inside : ∀ r ∈ s.live, r.Inside s.ctx
  chain : ∃ l : List Nat, l.Nodup ∧ Seg s.ctx.next s.ctx.poolFirst l none

/-- The size does not become negative, and a big region is not made behind a pool in use. -/
def PoolAction.Fine (s : PoolRun) : PoolAction → Prop
  | .malloc size =>
    0 ≤ roundSize size ∧
      (poolChunkSize < roundSize size → s.ctx.poolCurrent.isSome →
        s.ctx.poolCur + roundSize size ≤ s.ctx.poolEnd)
  | .reset => True

instance (s : PoolRun) : ∀ a : PoolAction, Decidable (a.Fine s)
  | .malloc _ => inferInstanceAs (Decidable (_ ∧ (_ → _ → _)))
  | .reset => isTrue trivial

/-- The size is not negative. -/
def PoolAction.Sized : PoolAction → Prop
  | .malloc size => 0 ≤ size.toInt
  | .reset => True

/-! ### The pools in use -/

/-- The pools used since the last reset, of which the current one is the last, and the pools behind
them. -/
structure PoolInv (s : PoolRun) (used rest : List Nat) : Prop where
  chain : Seg s.ctx.next s.ctx.poolFirst (used ++ rest) none
  nodup : (used ++ rest).Nodup
  made : ∀ p ∈ used ++ rest, p < s.ctx.nbPools ∧ poolChunkSize ≤ s.ctx.size p
  bounded : ∀ p, s.ctx.size p < 2 ^ 31 - 7
  current : used.getLast? = s.ctx.poolCurrent
  cursor : ∀ c, s.ctx.poolCurrent = some c →
    0 ≤ s.ctx.poolCur ∧ s.ctx.poolCur ≤ s.ctx.poolEnd ∧ s.ctx.poolEnd = s.ctx.size c
  placed : ∀ r ∈ s.live, 0 < r.size →
    ∃ p ∈ used, ∃ off, r.ptr = some (p, off) ∧ 0 ≤ off ∧ off + r.size ≤ s.ctx.size p ∧
      (s.ctx.poolCurrent = some p → off + r.size ≤ s.ctx.poolCur)
  apart : s.live.Pairwise fun r r' => ∀ p i, ¬(r.Holds p i ∧ r'.Holds p i)

section

variable {s : PoolRun} {ctx : TCGContext} {used rest : List Nat} {size : BitVec 32} {p c : Nat}
  {n : Int} {r : Region}

theorem Region.Holds.pos {i : Int} (h : r.Holds p i) : 0 < r.size := by
  obtain ⟨off, -, hle, hlt⟩ := h
  omega

theorem PoolInv.sound (h : PoolInv s used rest) : PoolsSound s where
  apart := h.apart
  inside := by
    intro r hr hpos
    obtain ⟨p, hp, off, hptr, hoff, hend, -⟩ := h.placed r hr hpos
    exact ⟨p, off, hptr, (h.made p (List.mem_append_left _ hp)).1, hoff, hend⟩
  chain := ⟨_, h.nodup, h.chain⟩

theorem PoolInv.start : PoolInv .start [] [] where
  chain := rfl
  nodup := List.nodup_nil
  made := by simp
  bounded := fun _ => show (0 : Int) < _ by decide
  current := rfl
  cursor := by
    intro c hc
    cases hc
  placed := by simp [PoolRun.start]
  apart := List.Pairwise.nil

theorem roundSize_bounds (size : BitVec 32) :
    -2 ^ 31 ≤ roundSize size ∧ roundSize size < 2 ^ 31 - 7 := by
  have hlow := BitVec.le_toInt size
  have hhigh := BitVec.toInt_lt (x := size)
  unfold roundSize
  rw [Int.bmod_def]
  split_ifs <;> omega

theorem le_roundSize (h : 0 ≤ roundSize size) : size.toInt ≤ roundSize size := by
  have hlow := BitVec.le_toInt size
  have hhigh := BitVec.toInt_lt (x := size)
  unfold roundSize at *
  rw [Int.bmod_def] at *
  split_ifs at * <;> omega

theorem pairwise_snoc {l : List Region}
    (h : l.Pairwise fun r r' => ∀ p i, ¬(r.Holds p i ∧ r'.Holds p i))
    (hnew : ∀ r' ∈ l, ∀ p i, ¬(r'.Holds p i ∧ r.Holds p i)) :
    (l ++ [r]).Pairwise fun r r' => ∀ p i, ¬(r.Holds p i ∧ r'.Holds p i) := by
  refine List.pairwise_append.mpr ⟨h, List.pairwise_singleton .., fun r' hr' r₁ hr₁ => ?_⟩
  obtain rfl := List.mem_singleton.mp hr₁
  exact hnew r' hr'

/-- **The front of the current pool** is given out. -/
theorem PoolInv.bump (h : PoolInv s used rest) (hc : s.ctx.poolCurrent = some c) (hn : 0 ≤ n)
    (hfits : s.ctx.poolCur + n ≤ s.ctx.poolEnd) {m : Int} (hm : m ≤ n) :
    PoolInv ⟨{ s.ctx with poolCur := s.ctx.poolCur + n },
      s.live ++ [⟨some (c, s.ctx.poolCur), m⟩]⟩ used rest := by
  have hused : c ∈ used := List.mem_of_getLast? (h.current.trans hc)
  obtain ⟨hcur, -, hend⟩ := h.cursor c hc
  refine ⟨h.chain, h.nodup, h.made, h.bounded, h.current, ?_, ?_, ?_⟩
  · intro c' hc'
    obtain rfl : c = c' := Option.some.inj (hc.symm.trans hc')
    exact ⟨by dsimp only; omega, hfits, hend⟩
  · intro r hr hpos
    obtain hr | hr := List.mem_append.mp hr
    · obtain ⟨p, hp, off, hptr, hoff, hsize, hle⟩ := h.placed r hr hpos
      refine ⟨p, hp, off, hptr, hoff, hsize, fun hcurrent => ?_⟩
      have hbefore := hle hcurrent
      dsimp only
      omega
    · obtain rfl := List.mem_singleton.mp hr
      refine ⟨c, hused, _, rfl, hcur, ?_, fun _ => ?_⟩
      · dsimp only
        omega
      · dsimp only
        omega
  · refine pairwise_snoc h.apart ?_
    rintro r' hr' p i ⟨hold, off, hptr, hle, hlt⟩
    obtain ⟨rfl, rfl⟩ := Prod.mk.inj (Option.some.inj hptr)
    -- the regions of the current pool end before its cursor
    obtain ⟨p, -, off', hptr', -, -, hbefore⟩ := h.placed r' hr' hold.pos
    obtain ⟨off'', hptr'', -, hlt'⟩ := hold
    obtain ⟨rfl, rfl⟩ := Prod.mk.inj (Option.some.inj (hptr'.symm.trans hptr''))
    have hend' := hbefore hc
    omega

/-- **The next pool** is taken. -/
theorem PoolInv.take (h : PoolInv s used (p :: rest)) (hn : 0 ≤ n) (hsize : n ≤ s.ctx.size p)
    {m : Int} (hm : m ≤ n) :
    PoolInv ⟨(takePool s.ctx p n).1, s.live ++ [⟨(takePool s.ctx p n).2, m⟩]⟩ (used ++ [p])
      rest := by
  have hchain := h.chain
  have hnodup := h.nodup
  have hmade := h.made
  rw [List.append_cons] at hchain hnodup hmade
  have hnew : p ∉ used := fun hp =>
    List.disjoint_of_nodup_append h.nodup hp List.mem_cons_self
  refine ⟨hchain, hnodup, hmade, h.bounded, List.getLast?_concat, ?_, ?_, ?_⟩
  · intro c hc
    obtain rfl := Option.some.inj hc
    exact ⟨hn, hsize, rfl⟩
  · intro r hr hpos
    obtain hr | hr := List.mem_append.mp hr
    · obtain ⟨p', hp', off, hptr, hoff, hend, -⟩ := h.placed r hr hpos
      refine ⟨p', List.mem_append_left _ hp', off, hptr, hoff, hend, fun hcurrent => ?_⟩
      obtain rfl := Option.some.inj hcurrent
      exact absurd hp' hnew
    · obtain rfl := List.mem_singleton.mp hr
      refine ⟨p, List.mem_append_right _ List.mem_cons_self, 0, rfl, le_rfl, ?_, fun _ => ?_⟩
      · exact (Int.zero_add m).trans_le (hm.trans hsize)
      · exact (Int.zero_add m).trans_le hm
  · refine pairwise_snoc h.apart ?_
    rintro r' hr' p' i ⟨hold, off, hptr, -, -⟩
    obtain ⟨rfl, rfl⟩ := Prod.mk.inj (Option.some.inj hptr)
    obtain ⟨p', hp', off', hptr', -⟩ := h.placed r' hr' hold.pos
    obtain ⟨off'', hptr'', -⟩ := hold
    obtain ⟨rfl, rfl⟩ := Prod.mk.inj (Option.some.inj (hptr'.symm.trans hptr''))
    exact hnew hp'

@[simp] theorem size_newPool_self {next : Option Nat} :
    (newPool ctx n next).size ctx.nbPools = n := by
  simp [newPool]

theorem size_newPool_of_ne {next : Option Nat} (hp : p ≠ ctx.nbPools) :
    (newPool ctx n next).size p = ctx.size p := by
  simp [newPool, hp]

theorem newPool_bounded (next : Option Nat) (h : ∀ p, ctx.size p < 2 ^ 31 - 7)
    (hn : n < 2 ^ 31 - 7) : ∀ p, (newPool ctx n next).size p < 2 ^ 31 - 7 := by
  intro p
  by_cases hp : p = ctx.nbPools
  · rwa [hp, size_newPool_self]
  · rw [size_newPool_of_ne hp]
    exact h p

theorem PoolInv.nbPools_notMem (h : PoolInv s used rest) : s.ctx.nbPools ∉ used ++ rest := fun hp =>
  (h.made _ hp).1.false

theorem PoolInv.used_eq_nil (h : PoolInv s used rest) (hc : s.ctx.poolCurrent = none) : used = [] :=
  List.getLast?_eq_none_iff.mp (h.current.trans hc)

/-- **A pool is made** behind the current one, which was the last. -/
theorem PoolInv.grow (h : PoolInv s used []) (hc : s.ctx.poolCurrent = some c)
    (hchunk : poolChunkSize ≤ n) (hn : n < 2 ^ 31 - 7) :
    PoolInv ⟨newPool s.ctx n none, s.live⟩ used [s.ctx.nbPools] := by
  obtain ⟨l, rfl⟩ : ∃ l, used = l ++ [c] := List.getLast?_eq_some_iff.mp (h.current.trans hc)
  have hnew := h.nbPools_notMem
  have hchain := h.chain
  have hnodup := h.nodup
  rw [List.append_nil] at hnew hchain hnodup
  -- the new pool is none of the old ones
  have hold : ∀ p ∈ l ++ [c], p ≠ s.ctx.nbPools := fun p hp hfresh => hnew (hfresh ▸ hp)
  have hcn : c ≠ s.ctx.nbPools := hold c (by simp)
  have hsize : ∀ p ∈ l ++ [c], (newPool s.ctx n none).size p = s.ctx.size p := fun p hp =>
    size_newPool_of_ne (hold p hp)
  have hfirst : (newPool s.ctx n none).poolFirst = s.ctx.poolFirst := by
    unfold newPool
    rw [hc]
  have hnext : (newPool s.ctx n none).next =
      update (update s.ctx.next c (some s.ctx.nbPools)) s.ctx.nbPools none := by
    unfold newPool
    rw [hc]
  refine ⟨?_, ?_, ?_, newPool_bounded none h.bounded hn, h.current, ?_, ?_, h.apart⟩
  · show Seg (newPool s.ctx n none).next (newPool s.ctx n none).poolFirst _ none
    rw [hfirst, hnext]
    refine hchain.snoc hnodup hnew ?_ (update_self ..) fun w hw hw' => ?_
    · rw [update_of_ne hcn, update_self]
    · rw [update_of_ne hw', update_of_ne hw]
  · exact List.nodup_append.mpr ⟨hnodup, List.nodup_singleton _, fun p hp q hq => by
      rw [List.mem_singleton.mp hq]
      exact hold p hp⟩
  · intro p hp
    obtain hp | hp := List.mem_append.mp hp
    · obtain ⟨hlt, hmade⟩ := h.made p (List.mem_append_left _ hp)
      refine ⟨Nat.lt_succ_of_lt hlt, ?_⟩
      rwa [hsize p hp]
    · obtain rfl := List.mem_singleton.mp hp
      refine ⟨Nat.lt_succ_self _, ?_⟩
      rwa [size_newPool_self]
  · intro c' hc'
    obtain ⟨h0, hle, hend⟩ := h.cursor c' hc'
    obtain rfl : c = c' := Option.some.inj (hc.symm.trans hc')
    exact ⟨h0, hle, hend.trans (hsize c (by simp)).symm⟩
  · intro r hr hpos
    obtain ⟨p, hp, off, hptr, hoff, hend, hbefore⟩ := h.placed r hr hpos
    exact ⟨p, hp, off, hptr, hoff, hend.trans_eq (hsize p hp).symm, hbefore⟩

/-- **The first pool is made**, and what was in the list is lost. -/
theorem PoolInv.first (h : PoolInv s used rest) (hc : s.ctx.poolCurrent = none)
    (hchunk : poolChunkSize ≤ n) (hn : n < 2 ^ 31 - 7) :
    PoolInv ⟨newPool s.ctx n none, s.live⟩ [] [s.ctx.nbPools] := by
  obtain rfl := h.used_eq_nil hc
  have hfirst : (newPool s.ctx n none).poolFirst = some s.ctx.nbPools := by
    unfold newPool
    rw [hc]
  refine ⟨⟨hfirst, update_self ..⟩, List.nodup_singleton _, ?_,
    newPool_bounded none h.bounded hn, h.current, ?_, ?_, h.apart⟩
  · intro p hp
    obtain rfl := List.mem_singleton.mp hp
    refine ⟨Nat.lt_succ_self _, ?_⟩
    rwa [size_newPool_self]
  · intro c hc'
    cases hc.symm.trans hc'
  · intro r hr hpos
    obtain ⟨p, hp, -⟩ := h.placed r hr hpos
    cases hp

/-- **Memory of another pool** is given out: no big region is made behind a pool in use. -/
theorem PoolInv.mallocInternal (h : PoolInv s used rest) (hn : 0 ≤ n) (hint : n < 2 ^ 31 - 7)
    (hbig : poolChunkSize < n → s.ctx.poolCurrent = none) {m : Int} (hm : m ≤ n) :
    ∃ used' rest', PoolInv ⟨(tcgMallocInternal s.ctx n).1,
      s.live ++ [⟨(tcgMallocInternal s.ctx n).2, m⟩]⟩ used' rest' := by
  have hmake : ∀ size, n ≤ size → n ≤ (newPool s.ctx size none).size s.ctx.nbPools :=
    fun size hle => hle.trans_eq size_newPool_self.symm
  unfold tcgMallocInternal
  by_cases hchunk : poolChunkSize < n
  · have hc := hbig hchunk
    rw [if_pos hchunk, hc]
    have hfirst := h.first hc hchunk.le hint
    exact ⟨_, _, hfirst.take hn (hmake n le_rfl) hm⟩
  · rw [if_neg hchunk]
    have hsmall : n ≤ poolChunkSize := not_lt.mp hchunk
    cases hc : s.ctx.poolCurrent with
    | none =>
      have hused := h.used_eq_nil hc
      cases hfirst : s.ctx.poolFirst with
      | none =>
        have hmade := h.first (n := poolChunkSize) hc le_rfl (by decide)
        exact ⟨_, _, hmade.take hn (hmake _ hsmall) hm⟩
      | some p =>
        -- the pools of the last time are walked again
        subst hused
        cases rest with
        | nil => exact absurd (hfirst.symm.trans h.chain) (by simp)
        | cons q rest =>
          obtain rfl : p = q := Option.some.inj (hfirst.symm.trans h.chain.1)
          have hlarge := (h.made p List.mem_cons_self).2
          exact ⟨_, _, h.take hn (hsmall.trans hlarge) hm⟩
    | some c =>
      obtain ⟨l, hl⟩ : ∃ l, used = l ++ [c] := List.getLast?_eq_some_iff.mp (h.current.trans hc)
      have hchain := h.chain
      rw [hl, List.append_assoc] at hchain
      have hbehind := (Seg.drop hchain).2
      cases rest with
      | nil =>
        have hnext : s.ctx.next c = none := hbehind
        have hmade := h.grow (n := poolChunkSize) hc le_rfl (by decide)
        simp only [hnext]
        exact ⟨_, _, hmade.take hn (hmake _ hsmall) hm⟩
      | cons p rest =>
        have hnext : s.ctx.next c = some p := hbehind.1
        have hlarge := (h.made p (List.mem_append_right _ List.mem_cons_self)).2
        simp only [hnext]
        exact ⟨_, _, h.take hn (hsmall.trans hlarge) hm⟩

theorem tcgMalloc_full (hc : ctx.poolCurrent = some c)
    (hfull : ctx.poolEnd < ctx.poolCur + roundSize size) :
    tcgMalloc ctx size = tcgMallocInternal ctx (roundSize size) := by
  simp [tcgMalloc, hc, hfull]

theorem tcgMalloc_room (hc : ctx.poolCurrent = some c)
    (hroom : ctx.poolCur + roundSize size ≤ ctx.poolEnd) :
    tcgMalloc ctx size =
      ({ ctx with poolCur := ctx.poolCur + roundSize size }, some (c, ctx.poolCur)) := by
  simp [tcgMalloc, hc, not_lt.mpr hroom]

/-- **A region is given out.** -/
theorem PoolInv.malloc (h : PoolInv s used rest) (hfine : PoolAction.Fine s (.malloc size)) :
    ∃ used' rest', PoolInv ⟨(tcgMalloc s.ctx size).1,
      s.live ++ [⟨(tcgMalloc s.ctx size).2, size.toInt⟩]⟩ used' rest' := by
  obtain ⟨hn, hbig⟩ := hfine
  have hm := le_roundSize hn
  have hint := (roundSize_bounds size).2
  cases hc : s.ctx.poolCurrent with
  | none =>
    unfold tcgMalloc
    simp only [hc]
    by_cases hzero : roundSize size = 0
    · simp only [if_pos hzero]
      refine ⟨used, rest, h.chain, h.nodup, h.made, h.bounded, h.current, h.cursor, ?_, ?_⟩
      · intro r hr hpos
        obtain hr | hr := List.mem_append.mp hr
        · exact h.placed r hr hpos
        · obtain rfl := List.mem_singleton.mp hr
          dsimp only at hpos
          omega
      · refine pairwise_snoc h.apart ?_
        rintro r' - p i ⟨-, off, hptr, -⟩
        cases hptr
    · simp only [if_neg hzero]
      exact h.mallocInternal hn hint (fun _ => hc) hm
  | some c =>
    by_cases hfull : s.ctx.poolEnd < s.ctx.poolCur + roundSize size
    · rw [tcgMalloc_full hc hfull]
      refine h.mallocInternal hn hint (fun hlarge => ?_) hm
      have hroom := hbig hlarge (by simp [hc])
      omega
    · rw [tcgMalloc_room hc (not_lt.mp hfull)]
      exact ⟨used, rest, h.bump hc hn (not_lt.mp hfull) hm⟩

theorem PoolInv.reset (h : PoolInv s used rest) :
    PoolInv ⟨tcgPoolReset s.ctx, []⟩ [] (used ++ rest) where
  chain := h.chain
  nodup := h.nodup
  made := h.made
  bounded := h.bounded
  current := rfl
  cursor := by
    intro c hc
    cases hc
  placed := by simp
  apart := List.Pairwise.nil

theorem PoolAction.exec_keeps {s' : PoolRun} {a : PoolAction}
    (h : ∃ used rest, PoolInv s used rest) (hfine : a.Fine s) (hexec : a.exec s = some s') :
    ∃ used rest, PoolInv s' used rest := by
  obtain ⟨used, rest, h⟩ := h
  cases a with
  | malloc size =>
    obtain rfl := Option.some.inj hexec
    exact h.malloc hfine
  | reset =>
    obtain rfl := Option.some.inj hexec
    exact ⟨_, _, h.reset⟩

/-! ### The other calls -/

theorem tcgMallocInternal_bounded (h : ∀ p, ctx.size p < 2 ^ 31 - 7) (hn : n < 2 ^ 31 - 7) :
    ∀ p, (tcgMallocInternal ctx n).1.size p < 2 ^ 31 - 7 := by
  have hchunk := newPool_bounded (n := poolChunkSize) none h (by decide)
  unfold tcgMallocInternal
  split_ifs
  · exact newPool_bounded ctx.poolCurrent h hn
  · split
    · split
      · exact hchunk
      · exact h
    · split
      · exact hchunk
      · exact h

theorem tcgMalloc_bounded (h : ∀ p, ctx.size p < 2 ^ 31 - 7) :
    ∀ p, (tcgMalloc ctx size).1.size p < 2 ^ 31 - 7 := by
  have hint := (roundSize_bounds size).2
  unfold tcgMalloc
  split
  · dsimp only
    split_ifs
    · exact h
    · exact tcgMallocInternal_bounded h hint
  · dsimp only
    split_ifs
    · exact tcgMallocInternal_bounded h hint
    · exact h

theorem lt_of_roundSize_neg (hsize : 0 ≤ size.toInt) (h : roundSize size < 0) :
    2 ^ 31 - 7 ≤ size.toInt := by
  have hhigh := BitVec.toInt_lt (x := size)
  unfold roundSize at h
  rw [Int.bmod_def] at h
  split_ifs at h <;> omega

/-- **A big region behind a pool in use** closes the list to a ring. -/
theorem PoolInv.ring (h : PoolInv s used rest) (hc : s.ctx.poolCurrent = some c)
    (hbig : poolChunkSize < n) (l : List Nat) :
    ¬Seg (tcgMallocInternal s.ctx n).1.next (tcgMallocInternal s.ctx n).1.poolFirst l none := by
  obtain ⟨u, rfl⟩ : ∃ u, used = u ++ [c] := List.getLast?_eq_some_iff.mp (h.current.trans hc)
  have hnew := h.nbPools_notMem
  have hnext : (tcgMallocInternal s.ctx n).1.next =
      update (update s.ctx.next c (some s.ctx.nbPools)) s.ctx.nbPools
        (some c) := by
    simp [tcgMallocInternal, hbig, takePool, newPool, hc]
  have hfirst : (tcgMallocInternal s.ctx n).1.poolFirst = s.ctx.poolFirst := by
    simp [tcgMallocInternal, hbig, takePool, newPool, hc]
  have hcn : c ≠ s.ctx.nbPools := by
    rintro rfl
    exact hnew (by simp)
  rw [hnext, hfirst]
  intro hseg
  -- the way to the current pool is the old one
  have hchain := h.chain
  rw [List.append_assoc] at hchain
  obtain ⟨m, hway, rfl, -⟩ := Seg_append.mp hchain
  have hnodup := h.nodup
  rw [List.append_assoc] at hnodup
  have hway' : Seg (update (update s.ctx.next c (some s.ctx.nbPools))
      s.ctx.nbPools (some c)) s.ctx.poolFirst u (some c) := by
    refine hway.congr fun v hv => ?_
    have hvn : v ≠ s.ctx.nbPools := by
      rintro rfl
      exact hnew (by simp [hv])
    have hvc : v ≠ c := by
      rintro rfl
      exact List.disjoint_of_nodup_append hnodup hv (by simp)
    rw [update_of_ne hvn, update_of_ne hvc]
  obtain ⟨l₂, hbehind⟩ := hway'.behind hseg
  refine not_Seg_of_cycle ?_ (update_self ..) l₂ hbehind
  rw [update_of_ne hcn, update_self]

/-- **A call that does not meet the condition** breaks the promise. -/
theorem PoolAction.exec_breaks {s' : PoolRun} {a : PoolAction} (hsized : a.Sized)
    (h : ∃ used rest, PoolInv s used rest) (hbad : ¬a.Fine s) (hexec : a.exec s = some s') :
    ¬PoolsSound s' := by
  obtain ⟨used, rest, h⟩ := h
  cases a with
  | reset => exact absurd trivial hbad
  | malloc size =>
    obtain rfl := Option.some.inj hexec
    intro hsound
    by_cases hn : 0 ≤ roundSize size
    · obtain ⟨hbig, hcurrent, hfull⟩ : poolChunkSize < roundSize size ∧
          s.ctx.poolCurrent.isSome ∧ s.ctx.poolEnd < s.ctx.poolCur + roundSize size := by
        by_contra hno
        refine hbad ⟨hn, fun hlarge hsome => ?_⟩
        by_contra hfull
        exact hno ⟨hlarge, hsome, not_le.mp hfull⟩
      obtain ⟨c, hc⟩ := Option.isSome_iff_exists.mp hcurrent
      obtain ⟨l, -, hchain⟩ := hsound.chain
      dsimp only at hchain
      rw [tcgMalloc_full hc hfull] at hchain
      exact h.ring hc hbig l hchain
    · have hlarge := lt_of_roundSize_neg hsized (not_le.mp hn)
      obtain ⟨p, off, -, -, hoff, hend⟩ := hsound.inside _
        (List.mem_append_right _ List.mem_cons_self) (by dsimp only; omega)
      have hbound : (tcgMalloc s.ctx size).1.size p < 2 ^ 31 - 7 := tcgMalloc_bounded h.bounded p
      dsimp only at hend
      omega

/-- **The regions are apart and the list ends** in the runs whose calls meet the condition, and for
sizes that are not negative in no others. -/
theorem tcg_pool_sound (as : List PoolAction) :
    (StepsMeet PoolAction.exec PoolAction.Fine .start as →
      ∀ n s, runFrom PoolAction.exec .start (as.take n) = some s → PoolsSound s) ∧
    ((∀ a ∈ as, a.Sized) →
      (∀ n s, runFrom PoolAction.exec .start (as.take n) = some s → PoolsSound s) →
      StepsMeet PoolAction.exec PoolAction.Fine .start as) := by
  have hsound : ∀ s, (∃ used rest, PoolInv s used rest) → PoolsSound s := fun s h => by
    obtain ⟨used, rest, h⟩ := h
    exact h.sound
  have hstart : ∃ used rest, PoolInv .start used rest := ⟨[], [], .start⟩
  constructor
  · intro h n s hrun
    rw [← List.take_append_drop n as] at h
    have hkeep := runFrom_preserves (fun _ _ _ hI hP hexec => PoolAction.exec_keeps hI hP hexec)
      hstart h.of_append.1 hrun
    exact hsound s hkeep
  · intro hsized hall
    have htotal : ∀ s (a : PoolAction), ∃ s', a.exec s = some s' := by
      intro s a
      cases a with
      | malloc size => exact ⟨_, rfl⟩
      | reset => exact ⟨_, rfl⟩
    have hruns : ∃ s', runFrom PoolAction.exec .start as = some s' ∧ True :=
      runFrom_invariant (fun s a _ _ => (htotal s a).imp fun s' hs' => ⟨hs', trivial⟩) trivial
        (StepsMeet.of_forall (P := fun _ _ => True) (fun _ _ => trivial) PoolRun.start as)
    obtain ⟨s', hrun, -⟩ := hruns
    refine (runFrom_total_iff_of hsound ?_ ?_ hstart (StepsMeet.of_mem _ hsized)).mp
      ⟨s', hrun, hall⟩
    · intro s a hI _ hP
      obtain ⟨s', hs'⟩ := htotal s a
      exact ⟨s', hs', PoolAction.exec_keeps hI hP hs'⟩
    · exact fun s a s' hI hH hP hexec => PoolAction.exec_breaks hH hI hP hexec

end

/-- Two regions of a pool, a reset, and a big region first. -/
theorem tcg_pool_sound_reset :
    let as : List PoolAction := [.malloc 8, .malloc 24, .reset, .malloc 40000, .malloc 8]
    ∀ n s, runFrom PoolAction.exec .start (as.take n) = some s → PoolsSound s :=
  (tcg_pool_sound _).1 (by decide)

/-- A big region behind a pool in use: the next small one is that of the pool before. -/
theorem tcg_pool_overlap :
    ∃ s, runFrom PoolAction.exec .start [.malloc 8, .malloc 40000, .malloc 8] = some s ∧
      ¬PoolsSound s := by
  refine ⟨_, rfl, fun h => ?_⟩
  have hapart := List.rel_of_pairwise_cons h.apart (List.mem_cons_of_mem _ List.mem_cons_self) 0 0
  exact hapart ⟨⟨0, by decide⟩, ⟨0, by decide⟩⟩

end Qemu.Tcg
