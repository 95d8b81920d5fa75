import Qemu.Lib.Ring
import Qemu.Lib.Runs
import Qemu.Lib.Stream

namespace Qemu.Hw

open Lib

/-!
# The FIFO of the DMA controller (`pl330.c`)

The bytes that have been loaded wait in a ring until they are stored.  Every byte has the tag of its
channel.

* `pl330FifoPush`, `pl330FifoGet`, `pl330FifoTaggedRemove` — the functions;
* `fifoSpec` — a bounded queue of tagged bytes;
* `contents_removeLoop` — the loop that takes a tag out of the ring;
* `pl330Fifo_refines` — runs in which the ring is never filled up, nor compacted around its end.
-/

/-- A cell has the elements of `tag` and `buf`; `s` is the head, `t` the tail, `buf_size` is `n`. -/
abbrev Pl330Fifo (n : Nat) := Ring (Byte × Byte) n

/-- What an operation returns. -/
inductive FifoResult where
  | ok
  | stall
  | err
  deriving DecidableEq

section

variable {n : Nat}

/-- `pl330_fifo_num_free` -/
def pl330FifoNumFree (q : Pl330Fifo n) : Nat :=
  if q.tail < q.head then q.head - q.tail else n - q.tail + q.head

variable [NeZero n]

/-- The loop of `pl330_fifo_push`. -/
def pushLoop (tag : Byte) : List Byte → Pl330Fifo n → FifoResult × Pl330Fifo n
  | [], q => (.ok, q)
  | b :: buf, q =>
    if q.tail + 1 ≠ q.head then pushLoop tag buf (q.push (tag, b)) else (.stall, q)

/-- `pl330_fifo_push` -/
def pl330FifoPush (q : Pl330Fifo n) (buf : List Byte) (tag : Byte) : FifoResult × Pl330Fifo n :=
  let r := pushLoop tag buf q
  -- the indices are rolled back, the cells are not
  if r.1 = .ok then r else (r.1, { r.2 with head := q.head, tail := q.tail })

/-- The loop of `pl330_fifo_get`, with what is copied. -/
def getLoop (tag : Byte) : Nat → Pl330Fifo n → FifoResult × List Byte × Pl330Fifo n
  | 0, q => (.ok, [], q)
  | len + 1, q =>
    if q.tail ≠ q.head ∧ (q.cells q.head).1 = tag then
      let r := getLoop tag len q.pop
      (r.1, (q.cells q.head).2 :: r.2.1, r.2.2)
    else (if q.tail = q.head then .stall else .err, [], q)

/-- `pl330_fifo_get`.  What is copied is not used where the result is not `ok`. -/
def pl330FifoGet (q : Pl330Fifo n) (len : Nat) (tag : Byte) :
    FifoResult × List Byte × Pl330Fifo n :=
  let r := getLoop tag len q
  if r.1 = .ok then r else (r.1, [], { r.2.2 with head := q.head, tail := q.tail })

/-- `pl330_fifo_reset` -/
def pl330FifoReset (q : Pl330Fifo n) : Pl330Fifo n := { q with head := 0, tail := 0 }

/-- The loop of `pl330_fifo_tagged_remove`.  `t` is not taken around the end, so that it may leave
the array. -/
def removeLoop (tag : Byte) : Nat → Fin n → Nat → Pl330Fifo n → Option (Pl330Fifo n)
  | 0, _, _, _ => none
  | fuel + 1, i, t, q =>
    if i = q.tail then if h : t < n then some { q with tail := ⟨t, h⟩ } else none
    else if (q.cells i).1 ≠ tag then
      if h : t < n then
        removeLoop tag fuel (i + 1) (t + 1)
          { q with cells := Function.update q.cells ⟨t, h⟩ (q.cells i) }
      else none
    else removeLoop tag fuel (i + 1) t q

/-- `pl330_fifo_tagged_remove`.  The loop goes around once at most. -/
def pl330FifoTaggedRemove (q : Pl330Fifo n) (tag : Byte) : Option (Pl330Fifo n) :=
  removeLoop tag n q.head q.head q

end

/-! ### A bounded queue -/

/-- An operation of the FIFO. -/
inductive FifoOp where
  | push (buf : List Byte) (tag : Byte)
  | get (len : Nat) (tag : Byte)
  | taggedRemove (tag : Byte)
  | reset

/-- The result, the bytes that are copied, and the number of free bytes behind it. -/
structure FifoAnswer where
  result : FifoResult
  bytes : List Byte
  numFree : Nat
  deriving DecidableEq

/-- The entries at the front of a queue that have a tag. -/
def tagRun (tag : Byte) (l : List (Byte × Byte)) : Nat := (l.takeWhile fun e => e.1 = tag).length

/-- A queue of `n` tagged bytes. -/
def fifoSpec (n : Nat) (l : List (Byte × Byte)) : FifoOp → FifoAnswer × List (Byte × Byte)
  | .push buf tag =>
    let l' := l ++ buf.map fun b => (tag, b)
    if l'.length ≤ n then (⟨.ok, [], n - l'.length⟩, l') else (⟨.stall, [], n - l.length⟩, l)
  | .get len tag =>
    if len ≤ tagRun tag l then
      (⟨.ok, (l.take len).map Prod.snd, n - (l.drop len).length⟩, l.drop len)
    else (⟨if tagRun tag l = l.length then .stall else .err, [], n - l.length⟩, l)
  | .taggedRemove tag =>
    let l' := l.filter fun e => e.1 ≠ tag
    (⟨.ok, [], n - l'.length⟩, l')
  | .reset => (⟨.ok, [], n⟩, [])

section

variable {n : Nat} [NeZero n]

/-- One operation, if it stays inside of the buffers. -/
def FifoOp.exec (q : Pl330Fifo n) : FifoOp → Option (FifoAnswer × Pl330Fifo n)
  | .push buf tag =>
    let r := pl330FifoPush q buf tag
    some (⟨r.1, [], pl330FifoNumFree r.2⟩, r.2)
  | .get len tag =>
    let r := pl330FifoGet q len tag
    some (⟨r.1, r.2.1, pl330FifoNumFree r.2.2⟩, r.2.2)
  | .taggedRemove tag =>
    (pl330FifoTaggedRemove q tag).map fun q => (⟨.ok, [], pl330FifoNumFree q⟩, q)
  | .reset => some (⟨.ok, [], pl330FifoNumFree (pl330FifoReset q)⟩, pl330FifoReset q)

/-- The ring does not become full, and it is not compacted around its end. -/
def FifoOp.Allowed (q : Pl330Fifo n) : FifoOp → Prop
  | .push buf _ => buf = [] ∨ buf.length ≠ pl330FifoNumFree q
  | .taggedRemove tag => q.head + (q.contents.filter fun e => e.1 ≠ tag).length < n
  | _ => True

instance fifoOpAllowedDecidable (q : Pl330Fifo n) : (op : FifoOp) → Decidable (op.Allowed q)
  | .push _ _ => inferInstanceAs (Decidable (_ ∨ _))
  | .taggedRemove _ => inferInstanceAs (Decidable (_ < _))
  | .get _ _ => isTrue trivial
  | .reset => isTrue trivial

end

/-! ### The functions, one by one -/

section

variable {n : Nat} (q : Pl330Fifo n)

theorem pl330FifoNumFree_eq : pl330FifoNumFree q = n - q.count := by
  have hhead := q.head.isLt
  have htail := q.tail.isLt
  unfold pl330FifoNumFree Ring.count
  simp only [Fin.lt_def, Fin.le_def]
  split_ifs <;> omega

theorem tail_eq_head_iff : q.tail = q.head ↔ q.count = 0 := by
  have hhead := q.head.isLt
  have htail := q.tail.isLt
  rw [Fin.ext_iff]
  unfold Ring.count
  simp only [Fin.le_def]
  split_ifs <;> omega

variable [NeZero n]

theorem tail_succ_eq_head_iff : q.tail + 1 = q.head ↔ q.count + 1 = n := by
  have hhead := q.head.isLt
  have htail := q.tail.isLt
  rw [Fin.ext_iff, Ring.val_succ]
  unfold Ring.count
  simp only [Fin.le_def]
  split_ifs <;> omega

/-- Only fewer bytes than there are free cells are pushed. -/
theorem pushLoop_ok (tag : Byte) {buf : List Byte} (h : buf = [] ∨ q.count + buf.length < n) :
    (pushLoop tag buf q).1 = .ok ∧
      (pushLoop tag buf q).2.contents = q.contents ++ buf.map fun b => (tag, b) := by
  induction buf generalizing q with
  | nil => exact ⟨rfl, (List.append_nil _).symm⟩
  | cons b buf ih =>
    have hlen : q.count + (buf.length + 1) < n := h.resolve_left (List.cons_ne_nil b buf)
    have hroom : q.count + 1 < n := by omega
    have hgo : q.tail + 1 ≠ q.head := fun h => by
      have := (tail_succ_eq_head_iff q).mp h
      omega
    rw [pushLoop, if_pos hgo]
    obtain ⟨hok, hcontents⟩ := ih (q.push (tag, b)) (Or.inr (by rw [Ring.count_push hroom]; omega))
    refine ⟨hok, ?_⟩
    rw [hcontents, Ring.contents_push hroom, List.append_assoc]
    rfl

/-- A push stalls if it would fill the last place. -/
theorem pushLoop_stall (tag : Byte) {buf : List Byte} (h : n ≤ q.count + buf.length)
    (hbuf : buf ≠ []) : (pushLoop tag buf q).1 = .stall := by
  induction buf generalizing q with
  | nil => exact absurd rfl hbuf
  | cons b buf ih =>
    rw [pushLoop]
    split
    · rename_i hgo
      have hlt := q.count_lt
      have hne := (tail_succ_eq_head_iff q).not.mp hgo
      have hcount := Ring.count_push (q := q) (by omega) (tag, b)
      rw [List.length_cons] at h
      apply ih
      · omega
      · rintro rfl
        simp only [List.length_nil] at h
        omega
    · rfl

/-- The elements are not overwritten. -/
theorem pushLoop_cells (tag : Byte) (buf : List Byte) {i : Nat} (hi : i < q.count) :
    (pushLoop tag buf q).2.cells (Fin.ofNat n (q.head + i)) =
      q.cells (Fin.ofNat n (q.head + i)) := by
  induction buf generalizing q with
  | nil => rfl
  | cons b buf ih =>
    rw [pushLoop]
    split
    · rename_i hgo
      have hlt := q.count_lt
      have hne := (tail_succ_eq_head_iff q).not.mp hgo
      have hcount := Ring.count_push (q := q) (by omega) (tag, b)
      exact (ih (q.push (tag, b)) (by omega)).trans
        (Function.update_of_ne (q.ofNat_ne_tail hi) _ _)
    · rfl

/-- A push is that of the specification. -/
theorem exec_push {buf : List Byte} {tag : Byte} (h : (FifoOp.push buf tag).Allowed q) :
    ∃ q', (FifoOp.push buf tag).exec q = some ((fifoSpec n q.contents (.push buf tag)).1, q') ∧
      q'.contents = (fifoSpec n q.contents (.push buf tag)).2 := by
  have hlt := q.count_lt
  simp only [FifoOp.Allowed, pl330FifoNumFree_eq] at h
  have hfree (q' : Pl330Fifo n) : pl330FifoNumFree q' = n - q'.contents.length := by
    rw [pl330FifoNumFree_eq, Ring.length_contents]
  simp only [FifoOp.exec, fifoSpec, List.length_append, Ring.length_contents, List.length_map]
  by_cases hroom : buf = [] ∨ q.count + buf.length < n
  · obtain ⟨hok, hcontents⟩ := pushLoop_ok q tag hroom
    have hle : q.count + buf.length ≤ n := by
      obtain rfl | hroom := hroom
      · exact hlt.le
      · exact hroom.le
    have hpush : pl330FifoPush q buf tag = pushLoop tag buf q := by
      rw [pl330FifoPush, if_pos hok]
    rw [if_pos hle, hpush]
    refine ⟨_, ?_, hcontents⟩
    rw [hfree, hcontents, hok, List.length_append, Ring.length_contents, List.length_map]
  · push Not at hroom
    have hstall := pushLoop_stall q tag hroom.2 hroom.1
    have hgt : ¬q.count + buf.length ≤ n := by
      have := h.resolve_left hroom.1
      omega
    rw [if_neg hgt, pl330FifoPush, hstall, if_neg (by decide)]
    have hcontents : ({ (pushLoop tag buf q).2 with head := q.head, tail := q.tail } :
        Pl330Fifo n).contents = q.contents := by
      apply List.map_congr_left
      intro i hi
      exact pushLoop_cells q tag buf (List.mem_range.mp hi)
    exact ⟨_, by rw [hfree, hcontents, Ring.length_contents], hcontents⟩

/-- The loop of a get takes entries of the tag, and stalls or fails if there are too few. -/
theorem getLoop_spec (tag : Byte) (len : Nat) :
    let r := getLoop tag len q
    r.2.2.cells = q.cells ∧
      if len ≤ tagRun tag q.contents then
        r.1 = .ok ∧ r.2.1 = (q.contents.take len).map Prod.snd ∧
          r.2.2.contents = q.contents.drop len
      else r.1 = if tagRun tag q.contents = q.contents.length then .stall else .err := by
  -- on the bytes that are left to get
  induction len generalizing q with
  | zero => simp [getLoop]
  | succ len ih =>
    dsimp only
    rw [getLoop]
    by_cases hempty : q.count = 0
    · have hcontents := Ring.contents_eq_nil hempty
      simp [(tail_eq_head_iff q).mpr hempty, hcontents, tagRun]
    · have hne := (tail_eq_head_iff q).not.mpr hempty
      have hcontents := Ring.contents_pop hempty
      -- the run of the tag ends at the first byte of another one
      by_cases htag : (q.cells q.head).1 = tag
      · obtain ⟨hcells, hrest⟩ := ih q.pop
        have htagged : tagRun tag q.contents = tagRun tag q.pop.contents + 1 := by
          rw [hcontents, tagRun, List.takeWhile_cons_of_pos (by simpa using htag)]
          rfl
        rw [if_pos ⟨hne, htag⟩, htagged]
        refine ⟨hcells, ?_⟩
        simp only [hcontents, Nat.add_le_add_iff_right, List.length_cons, Nat.add_right_cancel_iff,
          List.take_succ_cons, List.map_cons, List.drop_succ_cons]
        split at hrest
        · rename_i hle
          rw [if_pos hle]
          exact ⟨hrest.1, by rw [hrest.2.1], hrest.2.2⟩
        · rename_i hle
          rw [if_neg hle]
          exact hrest
      · have htagged : tagRun tag q.contents = 0 := by
          rw [hcontents, tagRun, List.takeWhile_cons_of_neg (by simpa using htag)]
          rfl
        simp [hne, htag, htagged, Ne.symm hempty]

/-- A get is that of the specification. -/
theorem exec_get (len : Nat) (tag : Byte) :
    ∃ q', (FifoOp.get len tag).exec q = some ((fifoSpec n q.contents (.get len tag)).1, q') ∧
      q'.contents = (fifoSpec n q.contents (.get len tag)).2 := by
  obtain ⟨hcells, hspec⟩ := getLoop_spec q tag len
  have hfree (q' : Pl330Fifo n) : pl330FifoNumFree q' = n - q'.contents.length := by
    rw [pl330FifoNumFree_eq, Ring.length_contents]
  simp only [FifoOp.exec, fifoSpec, pl330FifoGet, hfree]
  split at hspec
  · rename_i hle
    obtain ⟨hok, hbytes, hcontents⟩ := hspec
    rw [if_pos hle, if_pos hok, hok, hbytes, hcontents]
    exact ⟨_, rfl, hcontents⟩
  · rename_i hle
    have hfails : (getLoop tag len q).1 ≠ .ok := by
      rw [hspec]
      split <;> decide
    have hback : ({ (getLoop tag len q).2.2 with head := q.head, tail := q.tail } : Pl330Fifo n) =
        q := by
      dsimp only
      rw [hcells]
    rw [if_neg hle, if_neg hfails, hback, hspec]
    exact ⟨q, rfl, rfl⟩

theorem ofNat_head_add_inj {head i j : Nat} (hi : i < n) (hj : j < n)
    (h : Fin.ofNat n (head + i) = Fin.ofNat n (head + j)) : i = j := by
  have hcong : i % n = j % n := Nat.ModEq.add_left_cancel' head (congrArg Fin.val h)
  rwa [Nat.mod_eq_of_lt hi, Nat.mod_eq_of_lt hj] at hcong

/-- What stays of the first `k` elements. -/
def keptOf (tag : Byte) (k : Nat) : List (Byte × Byte) :=
  (q.contents.take k).filter fun e => e.1 ≠ tag

/-- The loop has come to the element `k`: what stays of the elements in front of it stands at the
head, the others are where they were. -/
structure Compacted (tag : Byte) (k : Nat) (q' : Pl330Fifo n) : Prop where
  head : q'.head = q.head
  tail : q'.tail = q.tail
  front : ∀ j < (keptOf q tag k).length,
    (keptOf q tag k)[j]? = some (q'.cells (Fin.ofNat n (q.head + j)))
  unread : ∀ m, k ≤ m → m < q.count → q.contents[m]? = some (q'.cells (Fin.ofNat n (q.head + m)))

variable {q} {tag : Byte} {k : Nat} {q' : Pl330Fifo n}

/-- An element of the other tags is copied down. -/
theorem Compacted.keep (h : Compacted q tag k q') (hk : k < q.count)
    (htag : (q'.cells (Fin.ofNat n (q.head + k))).1 ≠ tag)
    (ht : q.head + (keptOf q tag k).length < n) :
    (keptOf q tag (k + 1)).length = (keptOf q tag k).length + 1 ∧
      Compacted q tag (k + 1)
        { q' with
          cells := Function.update q'.cells ⟨q.head + (keptOf q tag k).length, ht⟩
            (q'.cells (Fin.ofNat n (q.head + k))) } := by
  have hlt := q.count_lt
  have hle : (keptOf q tag k).length ≤ k := by
    refine le_trans (List.length_filter_le _ _) ?_
    rw [List.length_take]
    exact Nat.min_le_left _ _
  have hsucc : keptOf q tag (k + 1) = keptOf q tag k ++ [q'.cells (Fin.ofNat n (q.head + k))] := by
    rw [keptOf, List.take_succ_eq_append_getElem (by rwa [Ring.length_contents]),
      List.filter_append]
    have helem := h.unread k le_rfl hk
    rw [List.getElem?_eq_getElem (by rwa [Ring.length_contents])] at helem
    rw [Option.some.inj helem, List.filter_cons_of_pos (by simpa using htag)]
    rfl
  have hcell : (⟨q.head + (keptOf q tag k).length, ht⟩ : Fin n) =
      Fin.ofNat n (q.head + (keptOf q tag k).length) := Fin.ext (Nat.mod_eq_of_lt ht).symm
  rw [hcell]
  -- the byte moves to the end of those kept, and none that is unread is overwritten
  refine ⟨by rw [hsucc, List.length_append, List.length_singleton], h.head, h.tail, ?_, ?_⟩
  · intro j hj
    rw [hsucc, List.length_append, List.length_singleton] at hj
    rw [hsucc]
    by_cases hjk : j = (keptOf q tag k).length
    · rw [hjk, List.getElem?_concat_length]
      dsimp only
      rw [Function.update_self]
    · have hne : Fin.ofNat n (q.head + j) ≠ Fin.ofNat n (q.head + (keptOf q tag k).length) :=
        fun heq => hjk (ofNat_head_add_inj (by omega) (by omega) heq)
      rw [List.getElem?_append_left (by omega), h.front j (by omega)]
      exact congrArg some (Function.update_of_ne hne _ _).symm
  · intro m hm hmc
    have hne : Fin.ofNat n (q.head + m) ≠ Fin.ofNat n (q.head + (keptOf q tag k).length) := by
      intro heq
      have := ofNat_head_add_inj (by omega) (by omega) heq
      omega
    rw [h.unread m (by omega) hmc]
    exact congrArg some (Function.update_of_ne hne _ _).symm

/-- An element of the tag is left out. -/
theorem Compacted.drop (h : Compacted q tag k q') (hk : k < q.count)
    (htag : (q'.cells (Fin.ofNat n (q.head + k))).1 = tag) :
    keptOf q tag (k + 1) = keptOf q tag k ∧ Compacted q tag (k + 1) q' := by
  have hsucc : keptOf q tag (k + 1) = keptOf q tag k := by
    rw [keptOf, List.take_succ_eq_append_getElem (by rwa [Ring.length_contents]),
      List.filter_append]
    have helem := h.unread k le_rfl hk
    rw [List.getElem?_eq_getElem (by rwa [Ring.length_contents])] at helem
    rw [Option.some.inj helem, List.filter_cons_of_neg (by simpa using htag), List.filter_nil,
      List.append_nil]
    rfl
  refine ⟨hsucc, h.head, h.tail, ?_, fun m hm => h.unread m (by omega)⟩
  rw [hsucc]
  exact h.front

/-- The tail is set behind what stays. -/
theorem Compacted.contents (h : Compacted q tag q.count q')
    (ht : q.head + (keptOf q tag q.count).length < n) :
    ({ q' with tail := ⟨q.head + (keptOf q tag q.count).length, ht⟩ } : Pl330Fifo n).contents =
      q.contents.filter fun e => e.1 ≠ tag := by
  have hall : keptOf q tag q.count = q.contents.filter fun e => e.1 ≠ tag := by
    rw [keptOf, List.take_of_length_le (by rw [Ring.length_contents])]
  have hcount (m : Nat) (hm : q.head + m < n) :
      ({ q' with tail := ⟨q.head + m, hm⟩ } : Pl330Fifo n).count = m := by
    simp only [Ring.count, h.head, Fin.le_def]
    rw [if_pos (Nat.le_add_right _ _), Nat.add_sub_cancel_left]
  rw [← hall]
  apply List.ext_getElem?
  intro j
  by_cases hj : j < (keptOf q tag q.count).length
  · rw [h.front j hj, Ring.contents, hcount, List.getElem?_map, List.getElem?_range hj]
    simp only [h.head, Option.map_some]
  · rw [List.getElem?_eq_none (by rw [Ring.length_contents, hcount]; omega),
      List.getElem?_eq_none (by omega)]

/-- The loop of a removal keeps the entries with other tags. -/
theorem contents_removeLoop {fuel : Nat} (hfuel : q.count < k + fuel) (hk : k ≤ q.count)
    (hroom : q.head + (q.contents.filter fun e => e.1 ≠ tag).length < n)
    (h : Compacted q tag k q') :
    ∃ q'', removeLoop tag fuel (Fin.ofNat n (q.head + k)) (q.head + (keptOf q tag k).length) q' =
        some q'' ∧
      q''.contents = q.contents.filter fun e => e.1 ≠ tag := by
  have hle (k : Nat) : q.head + (keptOf q tag k).length < n := by
    refine lt_of_le_of_lt (Nat.add_le_add_left ?_ _) hroom
    exact ((List.take_sublist k q.contents).filter _).length_le
  have hnext (k : Nat) : Fin.ofNat n (q.head + k) + 1 = Fin.ofNat n (q.head + (k + 1)) := by
    apply Fin.ext
    simp [Fin.val_add, Nat.add_assoc]
  induction fuel generalizing k q' with
  | zero => omega
  | succ fuel ih =>
    rw [removeLoop]
    obtain hlt | rfl := lt_or_eq_of_le hk
    · rw [if_neg (by rw [h.tail]; exact q.ofNat_ne_tail hlt), hnext]
      by_cases htag : (q'.cells (Fin.ofNat n (q.head + k))).1 = tag
      · obtain ⟨hkept, hdrop⟩ := h.drop hlt htag
        rw [if_neg (not_not.mpr htag), ← hkept]
        exact ih (by omega) hlt hdrop
      · obtain ⟨hkept, hkeep⟩ := h.keep hlt htag (hle k)
        rw [if_pos htag, dif_pos (hle k), Nat.add_assoc, ← hkept]
        exact ih (by omega) hlt hkeep
    · have hend : Fin.ofNat n (q.head + q.count) = q.tail := Fin.ext q.count_spec
      rw [if_pos (by rw [h.tail]; exact hend), dif_pos (hle _)]
      exact ⟨_, rfl, h.contents (hle _)⟩

/-- A removal is that of the specification, if what is kept does not wrap. -/
theorem exec_taggedRemove (h : (FifoOp.taggedRemove tag).Allowed q) :
    ∃ q', (FifoOp.taggedRemove tag).exec q = some ((fifoSpec n q.contents (.taggedRemove tag)).1,
        q') ∧
      q'.contents = (fifoSpec n q.contents (.taggedRemove tag)).2 := by
  have hstart : Compacted q tag 0 q :=
    { head := rfl
      tail := rfl
      front := fun j hj => absurd hj (Nat.not_lt_zero j)
      unread := fun m _ hm => by simp [Ring.contents, hm] }
  have hhead : Fin.ofNat n (q.head + 0) = q.head := Fin.ext (Nat.mod_eq_of_lt q.head.isLt)
  have hfuel : q.count < 0 + n := by rw [Nat.zero_add]; exact q.count_lt
  obtain ⟨q', hrun, hcontents⟩ := contents_removeLoop hfuel (Nat.zero_le _) h hstart
  rw [hhead] at hrun
  refine ⟨q', ?_, hcontents⟩
  have hremove : pl330FifoTaggedRemove q tag = some q' := hrun
  simp only [FifoOp.exec, fifoSpec, hremove, Option.map_some, pl330FifoNumFree_eq,
    ← Ring.length_contents, hcontents]

end

/-! ### Runs -/

/-- The FIFO, the queue it should be, and the answers of both. -/
structure FifoRun (n : Nat) where
  fifo : Pl330Fifo n
  queue : List (Byte × Byte)
  answers : List FifoAnswer
  expected : List FifoAnswer

section

variable {n : Nat} [NeZero n]

/-- One operation, with what the specification makes of it. -/
def FifoRun.exec (r : FifoRun n) (op : FifoOp) : Option (FifoRun n) :=
  (op.exec r.fifo).map fun p =>
    let p' := fifoSpec n r.queue op
    ⟨p.2, p'.2, r.answers ++ [p.1], r.expected ++ [p'.1]⟩

/-- `pl330_fifo_init` -/
def FifoRun.start : FifoRun n := ⟨⟨fun _ => (0, 0), 0, 0⟩, [], [], []⟩

/-- The FIFO holds the queue, and has answered as one. -/
structure FifoRun.Refines (r : FifoRun n) : Prop where
  contents : r.fifo.contents = r.queue
  answers : r.answers = r.expected

/-- An operation that is allowed refines its specification. -/
theorem FifoRun.Refines.step {r : FifoRun n} (h : r.Refines) {op : FifoOp}
    (hop : op.Allowed r.fifo) : ∃ r', r.exec op = some r' ∧ r'.Refines := by
  have hstep : ∃ q', op.exec r.fifo = some ((fifoSpec n r.fifo.contents op).1, q') ∧
      q'.contents = (fifoSpec n r.fifo.contents op).2 := by
    cases op with
    | push buf tag => exact exec_push r.fifo hop
    | get len tag => exact exec_get r.fifo len tag
    | taggedRemove tag => exact exec_taggedRemove hop
    | reset =>
      have hempty : (pl330FifoReset r.fifo).count = 0 := by simp [pl330FifoReset, Ring.count]
      refine ⟨_, ?_, Ring.contents_eq_nil hempty⟩
      simp only [FifoOp.exec, fifoSpec, pl330FifoNumFree_eq, hempty, Nat.sub_zero]
  obtain ⟨q', hexec, hcontents⟩ := hstep
  rw [h.contents] at hexec hcontents
  refine ⟨_, by rw [FifoRun.exec, hexec]; rfl, hcontents, ?_⟩
  simp only [h.answers]

/-- **The FIFO is a bounded queue**, as long as no push fills it up and no tag is removed around the
end of the array. -/
theorem pl330Fifo_refines {ops : List FifoOp}
    (h : StepsMeet FifoRun.exec (fun r op => op.Allowed r.fifo) (FifoRun.start (n := n)) ops) :
    ∃ r, runFrom FifoRun.exec (FifoRun.start (n := n)) ops = some r ∧ r.Refines ∧
      pl330FifoNumFree r.fifo = n - r.queue.length := by
  have hstart : (FifoRun.start (n := n)).Refines := ⟨Ring.contents_eq_nil (by
    simp [FifoRun.start, Ring.count]), rfl⟩
  obtain ⟨r, hrun, hr⟩ := runFrom_invariant (fun r op hr hop => hr.step hop) hstart h
  refine ⟨r, hrun, hr, ?_⟩
  rw [pl330FifoNumFree_eq, ← hr.contents, Ring.length_contents]

end

/-- Two channels, one of which is killed. -/
def fifoTwoTags : List FifoOp := [.push [1, 2] 0, .push [3] 1, .taggedRemove 0, .get 1 1]

/-- Two tags, of which one is removed. -/
theorem pl330Fifo_refines_twoTags :
    ∃ r, runFrom FifoRun.exec (FifoRun.start (n := 7)) fifoTwoTags = some r ∧ r.Refines ∧
      pl330FifoNumFree r.fifo = 7 - r.queue.length := by
  apply pl330Fifo_refines
  decide

/-- Four free cells are not enough for four bytes, and the tail leaves the array. -/
theorem pl330Fifo_stalls :
    pl330FifoNumFree (FifoRun.start (n := 4)).fifo = 4 ∧
      (pl330FifoPush (FifoRun.start (n := 4)).fifo [1, 2, 3, 4] 0).1 = .stall ∧
      runFrom FifoRun.exec (FifoRun.start (n := 4))
        [.push [1, 2, 3] 0, .get 3 0, .push [4, 5] 0, .taggedRemove 1] = none := by
  decide

end Qemu.Hw
