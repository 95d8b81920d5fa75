import Qemu.Block.Multiwrite
import Mathlib.Data.List.SplitLengths
import Mathlib.Data.List.Forall2

namespace Qemu.Block

open Lib

/-!
# What merged requests write

* `execute` — requests written to a device one after the other;
* `mergeReq_write` — a merged request against the two it was made of: it leaves out what the first
  has behind the end of the second;
* `MergesIntact` — all that is left out is written by a later request, and nothing is filled in;
* `multiwriteMerge_exec_iff` — exactly then the merged requests write what the requests do.
-/

/-! ### The device -/

/-- The byte of the device is one the request is for. -/
def BlockRequest.Covers (r : BlockRequest) (x : Nat) : Prop :=
  512 * r.sector ≤ x ∧ x < 512 * r.last

instance (r : BlockRequest) (x : Nat) : Decidable (r.Covers x) :=
  inferInstanceAs (Decidable (_ ∧ _))

/-- The device after the request. -/
def BlockRequest.write (r : BlockRequest) (dev : Nat → Byte) : Nat → Byte := fun x =>
  if r.Covers x then r.qiov.data.getD (x - 512 * r.sector) 0 else dev x

/-- The device after the requests in order. -/
def execute (reqs : List BlockRequest) (dev : Nat → Byte) : Nat → Byte :=
  reqs.foldl (fun dev r => r.write dev) dev

@[simp] theorem execute_cons (r : BlockRequest) (reqs : List BlockRequest) (dev : Nat → Byte) :
    execute (r :: reqs) dev = execute reqs (r.write dev) := rfl

section Request

variable {r : BlockRequest} {reqs : List BlockRequest} {dev dev' : Nat → Byte} {x : Nat}

theorem BlockRequest.write_of_covers (h : r.Covers x) (dev : Nat → Byte) :
    r.write dev x = r.qiov.data.getD (x - 512 * r.sector) 0 := if_pos h

theorem BlockRequest.write_of_not_covers (h : ¬ r.Covers x) (dev : Nat → Byte) :
    r.write dev x = dev x := if_neg h

theorem execute_of_not_covers (h : ∀ r ∈ reqs, ¬ r.Covers x) : execute reqs dev x = dev x := by
  induction reqs generalizing dev with
  | nil => rfl
  | cons r reqs ih =>
    rw [execute_cons, ih fun q hq => h q (List.mem_cons_of_mem _ hq)]
    exact BlockRequest.write_of_not_covers (h r List.mem_cons_self) dev

/-- What a request is for does not depend on what was there before. -/
theorem execute_congr (h : (∃ r ∈ reqs, r.Covers x) ∨ dev x = dev' x) :
    execute reqs dev x = execute reqs dev' x := by
  induction reqs generalizing dev dev' with
  | nil =>
    obtain ⟨r, hr, -⟩ | h := h
    · exact absurd hr List.not_mem_nil
    · exact h
  | cons r reqs ih =>
    rw [execute_cons, execute_cons]
    apply ih
    by_cases hr : r.Covers x
    · right
      rw [BlockRequest.write_of_covers hr, BlockRequest.write_of_covers hr]
    · rw [BlockRequest.write_of_not_covers hr, BlockRequest.write_of_not_covers hr]
      obtain ⟨q, hq, hc⟩ | h := h
      · obtain rfl | hq := List.mem_cons.mp hq
        · exact absurd hc hr
        · exact Or.inl ⟨q, hq, hc⟩
      · exact Or.inr h

end Request

/-! ### One merge -/

section Merge

variable {old new : BlockRequest}

/-- The gap between two requests, filled with zeros. -/
def gapBytes (old new : BlockRequest) : List Byte :=
  List.replicate ((new.sector - old.last) * 512) 0

/-- The bytes of a merge: the old ones up to the new request, the gap, and the new ones. -/
theorem mergeReq_data (old new : BlockRequest) :
    (mergeReq old new).qiov.data
      = old.qiov.data.take ((new.sector - old.sector) * 512) ++ gapBytes old new ++
        new.qiov.data := by
  have hnew : new.qiov.data.take new.qiov.size = new.qiov.data := List.take_length
  have hempty : (QEMUIOVector.mk []).data = [] := rfl
  unfold mergeReq gapBytes
  simp only [qemuIovecConcat_data, hnew]
  by_cases hg : new.sector > old.last
  · rw [if_pos hg, qemuIovecAdd_data, qemuIovecConcat_data, hempty, List.nil_append]
  · rw [if_neg hg, qemuIovecConcat_data, hempty, List.nil_append,
      show new.sector - old.last = 0 by omega]
    simp

theorem mergeReq_front_length (hw : old.Wf) (hs : old.sector ≤ new.sector) :
    (old.qiov.data.take ((new.sector - old.sector) * 512) ++ gapBytes old new).length
      = 512 * (new.sector - old.sector) := by
  have hsize : old.qiov.data.length = 512 * old.nbSectors := hw
  rw [List.length_append, List.length_take, hsize, gapBytes, List.length_replicate,
    BlockRequest.last]
  omega

theorem mergeReq_size (hw : old.Wf) (hw' : new.Wf) (hs : old.sector ≤ new.sector) :
    (mergeReq old new).qiov.size = 512 * (new.last - old.sector) := by
  have hsize : new.qiov.data.length = 512 * new.nbSectors := hw'
  rw [QEMUIOVector.size, mergeReq_data, List.length_append, mergeReq_front_length hw hs, hsize,
    BlockRequest.last]
  omega

@[simp] theorem mergeReq_sector (old new : BlockRequest) :
    (mergeReq old new).sector = old.sector := rfl

theorem mergeReq_nbSectors (hw : old.Wf) (hw' : new.Wf) (hs : old.sector ≤ new.sector) :
    (mergeReq old new).nbSectors = new.last - old.sector := by
  show (mergeReq old new).qiov.size / 512 = _
  rw [mergeReq_size hw hw' hs]
  omega

theorem mergeReq_wf (hw : old.Wf) (hw' : new.Wf) (hs : old.sector ≤ new.sector) :
    (mergeReq old new).Wf := by
  rw [BlockRequest.Wf, mergeReq_size hw hw' hs, mergeReq_nbSectors hw hw' hs]

theorem mergeReq_last (hw : old.Wf) (hw' : new.Wf) (hs : old.sector ≤ new.sector) :
    (mergeReq old new).last = new.last := by
  have hle : new.sector ≤ new.last := Nat.le_add_right _ _
  rw [BlockRequest.last, mergeReq_nbSectors hw hw' hs, mergeReq_sector]
  omega

/-- **What a merged request writes.** -/
theorem mergeReq_write (hw : old.Wf) (hw' : new.Wf) (hs : old.sector ≤ new.sector)
    (dev : Nat → Byte) (x : Nat) :
    (mergeReq old new).write dev x =
      if new.Covers x then new.qiov.data.getD (x - 512 * new.sector) 0
      else if old.Covers x ∧ x < 512 * new.sector then
        old.qiov.data.getD (x - 512 * old.sector) 0
      else if 512 * old.last ≤ x ∧ x < 512 * new.sector then 0
      else dev x := by
  have hold : old.qiov.data.length = 512 * old.nbSectors := hw
  have hlast := mergeReq_last hw hw' hs
  have hfront := mergeReq_front_length hw hs
  have hle : new.sector ≤ new.last := Nat.le_add_right _ _
  have hol : old.last = old.sector + old.nbSectors := rfl
  have hcov : (mergeReq old new).Covers x ↔ 512 * old.sector ≤ x ∧ x < 512 * new.last := by
    rw [BlockRequest.Covers, hlast, mergeReq_sector]
  by_cases hm : (mergeReq old new).Covers x
  · rw [BlockRequest.write_of_covers hm, mergeReq_sector, mergeReq_data]
    rw [hcov] at hm
    simp only [List.getD_eq_getElem?_getD]
    by_cases hn : 512 * new.sector ≤ x
    -- in the second request
    · have hc : new.Covers x := ⟨hn, hm.2⟩
      rw [if_pos hc, List.getElem?_append_right (by omega), hfront]
      congr 2
      omega
    · have hc : ¬ new.Covers x := fun hc => hn hc.1
      rw [if_neg hc, List.getElem?_append_left (by omega)]
      by_cases ho : old.Covers x
      -- in what is left of the first
      · have hx := ho.2
        rw [if_pos ⟨ho, by omega⟩, List.getElem?_append_left (by rw [List.length_take]; omega),
          List.getElem?_take_of_lt (by omega)]
      -- in the gap
      · have hgap : 512 * old.last ≤ x := by
          by_contra hlt
          exact ho ⟨hm.1, by omega⟩
        rw [if_neg (fun h => ho h.1), if_pos ⟨hgap, by omega⟩,
          List.getElem?_append_right (by rw [List.length_take]; omega), gapBytes,
          List.getElem?_replicate]
        split <;> rfl
  · rw [BlockRequest.write_of_not_covers hm]
    rw [hcov] at hm
    have hc : ¬ new.Covers x := fun hc => hm ⟨by have := hc.1; omega, hc.2⟩
    rw [if_neg hc, if_neg fun h => hm ⟨h.1.1, by omega⟩, if_neg fun h => hm ⟨by omega, by omega⟩]

end Merge

/-! ### Requests with the same ranges and other data -/

/-- The same sectors, in vectors of the same lengths. -/
structure SameShape (r r' : BlockRequest) : Prop where
  sector : r'.sector = r.sector
  nbSectors : r'.nbSectors = r.nbSectors
  iov : r'.qiov.iov.map List.length = r.qiov.iov.map List.length

theorem SameShape.refl (r : BlockRequest) : SameShape r r := ⟨rfl, rfl, rfl⟩

section Shape

variable {r r' old old' new new' : BlockRequest}

theorem SameShape.last (h : SameShape r r') : r'.last = r.last := by
  rw [BlockRequest.last, BlockRequest.last, h.sector, h.nbSectors]

theorem SameShape.niov (h : SameShape r r') : r'.qiov.niov = r.qiov.niov := by
  have hlen := congrArg List.length h.iov
  rwa [List.length_map, List.length_map] at hlen

theorem SameShape.size (h : SameShape r r') : r'.qiov.size = r.qiov.size := by
  rw [QEMUIOVector.size, QEMUIOVector.size, QEMUIOVector.data, QEMUIOVector.data,
    List.length_flatten, List.length_flatten, h.iov]

theorem SameShape.wf (h : SameShape r r') (hw : r.Wf) : r'.Wf := by
  rw [BlockRequest.Wf, h.size, h.nbSectors]
  exact hw

theorem SameShape.covers (h : SameShape r r') (x : Nat) : r'.Covers x ↔ r.Covers x := by
  rw [BlockRequest.Covers, BlockRequest.Covers, h.sector, h.last]

theorem SameShape.merges (ho : SameShape old old') (hn : SameShape new new') (d : MergeHook) :
    merges d old' new' = merges d old new := by
  unfold Qemu.Block.merges
  rw [ho.niov, hn.niov, ho.last, ho.sector, ho.nbSectors, hn.sector, hn.nbSectors]

/-- The lengths of the elements do not depend on the bytes. -/
theorem concatLoop_lengths {size : Nat} {dst dst' : QEMUIOVector} {vs vs' : List (List Byte)}
    (hd : dst'.iov.map List.length = dst.iov.map List.length)
    (hv : vs'.map List.length = vs.map List.length) (done : Nat) :
    (concatLoop size dst' vs' done).iov.map List.length
      = (concatLoop size dst vs done).iov.map List.length := by
  induction vs generalizing vs' dst dst' done with
  | nil =>
    rw [List.map_nil, List.map_eq_nil_iff] at hv
    rw [hv]
    exact hd
  | cons v vs ih =>
    cases vs' with
    | nil => exact absurd hv (by simp)
    | cons v' vs' =>
      obtain ⟨hlen, hrest⟩ := List.cons.inj hv
      unfold concatLoop
      rw [hlen]
      split
      · exact hd
      · split
        · simp [qemuIovecAdd, hd, hlen]
        · exact ih (by simp [qemuIovecAdd, hd, hlen]) hrest _

/-- Merges of the same shapes have the same shape. -/
theorem SameShape.mergeReq (ho : SameShape old old') (hn : SameShape new new') :
    SameShape (mergeReq old new) (mergeReq old' new') := by
  have hiov : (Qemu.Block.mergeReq old' new').qiov.iov.map List.length
      = (Qemu.Block.mergeReq old new).qiov.iov.map List.length := by
    unfold Qemu.Block.mergeReq
    simp only [ho.last, ho.sector, hn.sector, hn.size]
    apply concatLoop_lengths _ hn.iov
    by_cases hg : new.sector > old.last
    · simp only [if_pos hg, qemuIovecAdd, List.map_append]
      rw [qemuIovecConcat, concatLoop_lengths rfl ho.iov]
      rfl
    · simp only [if_neg hg]
      exact concatLoop_lengths rfl ho.iov _
  refine ⟨ho.sector, ?_, hiov⟩
  show (Qemu.Block.mergeReq old' new').qiov.size / 512 =
    (Qemu.Block.mergeReq old new).qiov.size / 512
  rw [QEMUIOVector.size, QEMUIOVector.size, QEMUIOVector.data, QEMUIOVector.data,
    List.length_flatten, List.length_flatten, hiov]

theorem exists_shape_of_mem {reqs reqs' : List BlockRequest}
    (hs : List.Forall₂ SameShape reqs reqs') {q : BlockRequest} (hq : q ∈ reqs') :
    ∃ p ∈ reqs, SameShape p q := by
  induction hs with
  | nil => exact absurd hq List.not_mem_nil
  | cons hab _ ih =>
    obtain rfl | hq := List.mem_cons.mp hq
    · exact ⟨_, List.mem_cons_self, hab⟩
    · obtain ⟨p, hp, hpq⟩ := ih hq
      exact ⟨p, List.mem_cons_of_mem _ hp, hpq⟩

/-- Requests of the same shapes are for the same sectors. -/
theorem exists_sector_of_shape {reqs reqs' : List BlockRequest}
    (hs : List.Forall₂ SameShape reqs reqs') {y : Nat}
    (h : ∃ q ∈ reqs, q.sector ≤ y ∧ y < q.last) : ∃ q ∈ reqs', q.sector ≤ y ∧ y < q.last := by
  induction hs with
  | nil => exact h
  | cons hab _ ih =>
    obtain ⟨q, hq, hy⟩ := h
    obtain rfl | hq := List.mem_cons.mp hq
    · exact ⟨_, List.mem_cons_self, by rw [hab.sector, hab.last]; exact hy⟩
    · obtain ⟨q', hq', hy'⟩ := ih ⟨q, hq, hy⟩
      exact ⟨q', List.mem_cons_of_mem _ hq', hy'⟩

/-- A request of the same shape with given data. -/
def BlockRequest.withData (r : BlockRequest) (bytes : List Byte) : BlockRequest :=
  { r with qiov := ⟨(r.qiov.iov.map List.length).splitLengths bytes⟩ }

theorem BlockRequest.withData_spec (r : BlockRequest) {bytes : List Byte}
    (h : bytes.length = r.qiov.size) :
    SameShape r (r.withData bytes) ∧ (r.withData bytes).qiov.data = bytes := by
  have hsum : (r.qiov.iov.map List.length).sum = bytes.length := by
    rw [h, QEMUIOVector.size, QEMUIOVector.data, List.length_flatten]
  exact ⟨⟨rfl, rfl, List.map_splitLengths_length _ _ hsum.le⟩,
    List.flatten_splitLengths _ _ hsum.ge⟩

theorem SameShape.eq_of_data (h : SameShape r r') (hd : r'.qiov.data = r.qiov.data) : r' = r := by
  obtain ⟨s, n, ⟨v⟩⟩ := r
  obtain ⟨s', n', ⟨v'⟩⟩ := r'
  have hs : s' = s := h.sector
  have hn : n' = n := h.nbSectors
  have hv : v' = v := List.eq_iff_flatten_eq.mpr ⟨hd, h.iov⟩
  rw [hs, hn, hv]

/-- **Every request of the shape of a merged one is merged from two requests** of the shapes of its
    parts, when there is no gap to be filled. -/
theorem mergeReq_surj (hw : old.Wf) (hw' : new.Wf) (hs : old.sector ≤ new.sector)
    (hg : new.sector ≤ old.last) {m : BlockRequest} (hm : SameShape (mergeReq old new) m) :
    ∃ old' new', SameShape old old' ∧ SameShape new new' ∧ mergeReq old' new' = m := by
  have hold : old.qiov.size = 512 * old.nbSectors := hw
  have hnew : new.qiov.size = 512 * new.nbSectors := hw'
  have hlast : old.last = old.sector + old.nbSectors := rfl
  have hnlast : new.last = new.sector + new.nbSectors := rfl
  have hsize : m.qiov.data.length = 512 * (new.last - old.sector) :=
    hm.size.trans (mergeReq_size hw hw' hs)
  set cut := (new.sector - old.sector) * 512 with hcut
  -- the first request goes on with zeros behind the cut
  have hlo : (m.qiov.data.take cut ++ List.replicate (old.qiov.size - cut) 0).length
      = old.qiov.size := by
    rw [List.length_append, List.length_take, List.length_replicate]
    omega
  have hln : (m.qiov.data.drop cut).length = new.qiov.size := by
    rw [List.length_drop]
    omega
  obtain ⟨hso, hdo⟩ := old.withData_spec hlo
  obtain ⟨hsn, hdn⟩ := new.withData_spec hln
  refine ⟨_, _, hso, hsn, ?_⟩
  refine SameShape.eq_of_data (r := m) ⟨?_, ?_, ?_⟩ ?_
  · rw [(hso.mergeReq hsn).sector, hm.sector]
  · rw [(hso.mergeReq hsn).nbSectors, hm.nbSectors]
  · rw [(hso.mergeReq hsn).iov, hm.iov]
  · rw [mergeReq_data, hdo, hdn, hso.sector, hsn.sector, ← hcut, gapBytes, hso.last, hsn.sector,
      show new.sector - old.last = 0 by omega, Nat.zero_mul, List.replicate_zero, List.append_nil,
      List.take_append_of_le_length (by rw [List.length_take]; omega), List.take_take,
      Nat.min_self, List.take_append_drop]

end Shape

/-! ### Merges that lose nothing -/

/-- Every merge of the request collected so far with the next closes no gap, and all it drops, the
    sectors from the end of the next on, some later request writes. -/
def MergesIntactFrom (d : MergeHook) (cur : BlockRequest) : List BlockRequest → Prop
  | [] => True
  | r :: rest =>
    if merges d cur r then
      r.sector ≤ cur.last ∧
        (∀ y < cur.last, r.last ≤ y → ∃ q ∈ rest, q.sector ≤ y ∧ y < q.last) ∧
        MergesIntactFrom d (mergeReq cur r) rest
    else MergesIntactFrom d r rest

/-- Every merge of the list does. -/
def MergesIntact (d : MergeHook) : List BlockRequest → Prop
  | [] => True
  | r :: rest => MergesIntactFrom d r rest

instance MergesIntactFrom.decidable (d : MergeHook) :
    ∀ (rest : List BlockRequest) (cur : BlockRequest), Decidable (MergesIntactFrom d cur rest)
  | [], _ => isTrue trivial
  | r :: rest, cur => by
    have := MergesIntactFrom.decidable d rest (mergeReq cur r)
    have := MergesIntactFrom.decidable d rest r
    unfold MergesIntactFrom
    infer_instance

instance (d : MergeHook) : ∀ reqs : List BlockRequest, Decidable (MergesIntact d reqs)
  | [] => isTrue trivial
  | r :: rest => MergesIntactFrom.decidable d rest r

theorem multiwriteReqCompare_le {r₁ r₂ : BlockRequest} :
    multiwriteReqCompare r₁ r₂ ≤ 0 ↔ r₁.sector ≤ r₂.sector := by
  unfold multiwriteReqCompare
  split
  · omega
  · split <;> omega

/-- Sorted requests with the data they ask for. -/
structure SortedWf (reqs : List BlockRequest) : Prop where
  sorted : reqs.Pairwise fun r₁ r₂ => r₁.sector ≤ r₂.sector
  wf : ∀ r ∈ reqs, r.Wf

/-- The condition is about shapes. -/
theorem MergesIntactFrom.shape {d : MergeHook} {cur cur' : BlockRequest}
    {rest rest' : List BlockRequest} (h : MergesIntactFrom d cur rest) (hc : SameShape cur cur')
    (hr : List.Forall₂ SameShape rest rest') : MergesIntactFrom d cur' rest' := by
  induction hr generalizing cur cur' with
  | nil => exact trivial
  | cons hab hrest ih =>
    unfold MergesIntactFrom at h ⊢
    rw [hc.merges hab]
    split at h
    · rename_i hm
      obtain ⟨hg, hcov, hi⟩ := h
      rw [if_pos hm, hab.sector, hc.last, hab.last]
      exact ⟨hg, fun y hy hry => exists_sector_of_shape hrest (hcov y hy hry),
        ih hi (hc.mergeReq hab)⟩
    · rename_i hm
      rw [if_neg hm]
      exact ih h hab

section Sorted

variable {cur r : BlockRequest} {rest : List BlockRequest}

theorem SortedWf.tail (h : SortedWf (r :: rest)) : SortedWf rest :=
  ⟨(List.pairwise_cons.mp h.sorted).2, fun q hq => h.wf q (List.mem_cons_of_mem _ hq)⟩

theorem SortedWf.head_le (h : SortedWf (cur :: rest)) : ∀ q ∈ rest, cur.sector ≤ q.sector :=
  (List.pairwise_cons.mp h.sorted).1

theorem SortedWf.head_wf (h : SortedWf (cur :: rest)) : cur.Wf := h.wf cur List.mem_cons_self

theorem SortedWf.merge (h : SortedWf (cur :: r :: rest)) : SortedWf (mergeReq cur r :: rest) := by
  have hle := h.head_le
  refine ⟨List.pairwise_cons.mpr ⟨fun q hq => hle q (List.mem_cons_of_mem _ hq), ?_⟩, ?_⟩
  · exact h.tail.tail.sorted
  · intro q hq
    obtain rfl | hq := List.mem_cons.mp hq
    · exact mergeReq_wf h.head_wf h.tail.head_wf (hle r List.mem_cons_self)
    · exact h.tail.tail.wf q hq

/-- Sorting looks at the shapes only. -/
theorem SortedWf.shape {reqs reqs' : List BlockRequest} (h : SortedWf reqs)
    (hs : List.Forall₂ SameShape reqs reqs') : SortedWf reqs' := by
  induction hs with
  | nil => exact h
  | cons hr hrest ih =>
    obtain ⟨hsort, hwf⟩ := ih h.tail
    refine ⟨List.pairwise_cons.mpr ⟨fun q hq => ?_, hsort⟩, fun q hq => ?_⟩
    · obtain ⟨p, hp, hpq⟩ := exists_shape_of_mem hrest hq
      rw [hr.sector, hpq.sector]
      exact h.head_le p hp
    · obtain rfl | hq := List.mem_cons.mp hq
      · exact hr.wf h.head_wf
      · exact hwf q hq

theorem covers_iff_sector (q : BlockRequest) (x : Nat) :
    q.Covers x ↔ q.sector ≤ x / 512 ∧ x / 512 < q.last := by
  unfold BlockRequest.Covers
  omega

/-- Two requests one after the other, against the request merged from them. -/
theorem write_write (h : SortedWf (cur :: r :: rest)) (hg : r.sector ≤ cur.last)
    (dev : Nat → Byte) {x : Nat} (hx : ¬ (512 * r.last ≤ x ∧ x < 512 * cur.last)) :
    (mergeReq cur r).write dev x = r.write (cur.write dev) x := by
  have hs := h.head_le r List.mem_cons_self
  have hle : r.sector ≤ r.last := Nat.le_add_right _ _
  rw [mergeReq_write h.head_wf h.tail.head_wf hs]
  by_cases hr : r.Covers x
  · rw [if_pos hr, BlockRequest.write_of_covers hr]
  · rw [if_neg hr, BlockRequest.write_of_not_covers hr]
    by_cases hc : cur.Covers x
    · have hlt : x < 512 * r.sector := by
        by_contra hge
        have := hc.2
        exact hr ⟨by omega, by omega⟩
      rw [if_pos ⟨hc, hlt⟩, BlockRequest.write_of_covers hc]
    · rw [if_neg fun h => hc h.1, BlockRequest.write_of_not_covers hc,
        if_neg fun h => by have := h.1; have := h.2; omega]

/-- A merge without a gap whose drops are written later changes nothing. -/
theorem execute_mergeReq (h : SortedWf (cur :: r :: rest)) (hg : r.sector ≤ cur.last)
    (hcov : ∀ y < cur.last, r.last ≤ y → ∃ q ∈ rest, q.sector ≤ y ∧ y < q.last)
    (dev : Nat → Byte) : execute (mergeReq cur r :: rest) dev = execute (cur :: r :: rest) dev := by
  funext x
  show execute rest ((mergeReq cur r).write dev) x = execute rest (r.write (cur.write dev)) x
  apply execute_congr
  by_cases hx : 512 * r.last ≤ x ∧ x < 512 * cur.last
  -- dropped by the merge, but written later
  · obtain ⟨q, hq, hle, hlt⟩ := hcov (x / 512) (by omega) (by omega)
    exact Or.inl ⟨q, hq, (covers_iff_sector q x).mpr ⟨hle, hlt⟩⟩
  · exact Or.inr (write_write h hg dev hx)

/-- **Merges that lose nothing** write what the requests write. -/
theorem execute_mergeList (d : MergeHook) (h : SortedWf (cur :: rest))
    (hi : MergesIntactFrom d cur rest) (dev : Nat → Byte) :
    execute (mergeList d cur rest) dev = execute (cur :: rest) dev := by
  induction rest generalizing cur dev with
  | nil => rfl
  | cons r rest ih =>
    unfold mergeList
    unfold MergesIntactFrom at hi
    by_cases hm : merges d cur r = true
    · rw [if_pos hm] at hi ⊢
      obtain ⟨hg, hcov, hi⟩ := hi
      rw [ih h.merge hi, execute_mergeReq h hg hcov]
    · rw [if_neg hm] at hi ⊢
      rw [execute_cons, ih h.tail hi]
      rfl

/-! ### Merges that lose data -/

/-- Before the start of the rest the collected request is alone. -/
theorem execute_mergeList_below (d : MergeHook) (h : SortedWf (cur :: rest)) (dev : Nat → Byte)
    {x : Nat} (hcur : x < 512 * cur.last) (hx : ∀ q ∈ rest, x < 512 * q.sector) :
    execute (mergeList d cur rest) dev x = cur.write dev x := by
  induction rest generalizing cur dev with
  | nil => rfl
  | cons r rest ih =>
    have hr := hx r List.mem_cons_self
    have hrest : ∀ q ∈ rest, x < 512 * q.sector := fun q hq => hx q (List.mem_cons_of_mem _ hq)
    have hle : r.sector ≤ r.last := Nat.le_add_right _ _
    have hs := h.head_le r List.mem_cons_self
    have hnr : ¬ r.Covers x := fun hc => by have := hc.1; omega
    unfold mergeList
    by_cases hm : merges d cur r = true
    · have hlast := mergeReq_last h.head_wf h.tail.head_wf hs
      rw [if_pos hm, ih h.merge dev (by omega) hrest,
        mergeReq_write h.head_wf h.tail.head_wf hs, if_neg hnr]
      by_cases hc : cur.Covers x
      · rw [if_pos ⟨hc, hr⟩, BlockRequest.write_of_covers hc]
      · rw [if_neg fun h => hc h.1, BlockRequest.write_of_not_covers hc,
          if_neg fun h => by have := h.1; omega]
    · rw [if_neg hm, execute_cons, ih h.tail _ (by omega) hrest,
        BlockRequest.write_of_not_covers hnr]

/-- The request writes nothing but zero at the byte. -/
def BlockRequest.ZeroAt (r : BlockRequest) (x : Nat) : Prop :=
  r.Covers x → r.qiov.data.getD (x - 512 * r.sector) 0 = 0

theorem BlockRequest.ZeroAt.write {x : Nat} (h : r.ZeroAt x) {dev : Nat → Byte}
    (hd : dev x = 0) : r.write dev x = 0 := by
  by_cases hc : r.Covers x
  · rw [BlockRequest.write_of_covers hc, h hc]
  · rw [BlockRequest.write_of_not_covers hc, hd]

/-- A merged request writes only zero where the second one does and the first one does or has
    been dropped. -/
theorem mergeReq_zeroAt (h : SortedWf (cur :: r :: rest)) {x : Nat}
    (hcur : cur.ZeroAt x ∨ 512 * r.last ≤ x) (hr : r.ZeroAt x) : (mergeReq cur r).ZeroAt x := by
  have hle : r.sector ≤ r.last := Nat.le_add_right _ _
  intro hc
  have hw := mergeReq_write h.head_wf h.tail.head_wf (h.head_le r List.mem_cons_self)
    (fun _ => 0) x
  rw [BlockRequest.write_of_covers hc] at hw
  rw [hw]
  split
  · exact hr (by assumption)
  · split
    · rename_i hold
      obtain hcur | hge := hcur
      · exact hcur hold.1
      · have := hold.2
        omega
    · split <;> rfl

/-- Where all requests have zeroes, so has their merge. -/
theorem execute_mergeList_zero (d : MergeHook) (h : SortedWf (cur :: rest)) {dev : Nat → Byte}
    {x : Nat} (hcur : cur.ZeroAt x) (hrest : ∀ q ∈ rest, q.ZeroAt x) (hd : dev x = 0) :
    execute (mergeList d cur rest) dev x = 0 := by
  induction rest generalizing cur dev with
  | nil => exact hcur.write hd
  | cons r rest ih =>
    have hr := hrest r List.mem_cons_self
    have htail : ∀ q ∈ rest, q.ZeroAt x := fun q hq => hrest q (List.mem_cons_of_mem _ hq)
    unfold mergeList
    by_cases hm : merges d cur r = true
    · rw [if_pos hm]
      exact ih h.merge (mergeReq_zeroAt h (Or.inl hcur) hr) htail hd
    · rw [if_neg hm, execute_cons]
      exact ih h.tail hr htail (hcur.write hd)

/-- The request with the same byte everywhere. -/
def BlockRequest.paint (r : BlockRequest) (b : Byte) : BlockRequest :=
  r.withData (List.replicate r.qiov.size b)

theorem BlockRequest.paint_shape (r : BlockRequest) (b : Byte) : SameShape r (r.paint b) :=
  (r.withData_spec List.length_replicate).1

theorem BlockRequest.paint_data (hw : r.Wf) (b : Byte) {x : Nat} (hc : (r.paint b).Covers x) :
    (r.paint b).qiov.data.getD (x - 512 * (r.paint b).sector) 0 = b := by
  have hsize : r.qiov.size = 512 * r.nbSectors := hw
  rw [(r.paint_shape b).covers] at hc
  obtain ⟨hlo, hhi⟩ := hc
  rw [BlockRequest.last] at hhi
  rw [(r.paint_shape b).sector, BlockRequest.paint, (r.withData_spec List.length_replicate).2,
    List.getD_eq_getElem?_getD, List.getElem?_replicate, if_pos (by omega)]
  rfl

theorem BlockRequest.paint_zeroAt (hw : r.Wf) (x : Nat) : (r.paint 0).ZeroAt x :=
  fun hc => BlockRequest.paint_data hw 0 hc

theorem paint_forall₂ (reqs : List BlockRequest) (b : Byte) :
    List.Forall₂ SameShape reqs (reqs.map (BlockRequest.paint · b)) := by
  induction reqs with
  | nil => exact List.Forall₂.nil
  | cons r reqs ih => exact List.Forall₂.cons (r.paint_shape b) ih

theorem sameShape_forall₂_refl (reqs : List BlockRequest) : List.Forall₂ SameShape reqs reqs := by
  induction reqs with
  | nil => exact List.Forall₂.nil
  | cons r reqs ih => exact List.Forall₂.cons (SameShape.refl r) ih

/-- Whatever the data, the merged requests write what the requests write. -/
def WritesSame (d : MergeHook) (cur : BlockRequest) (rest : List BlockRequest) : Prop :=
  ∀ cur' rest', SameShape cur cur' → List.Forall₂ SameShape rest rest' → ∀ dev,
    execute (mergeList d cur' rest') dev = execute (cur' :: rest') dev

/-- A merge that fills a gap overwrites what was there. -/
theorem WritesSame.no_gap {d : MergeHook} (h : SortedWf (cur :: r :: rest))
    (hm : merges d cur r = true) (hw : WritesSame d cur (r :: rest)) : r.sector ≤ cur.last := by
  by_contra hgap
  have hcl : cur.sector ≤ cur.last := Nat.le_add_right _ _
  have hrl : r.sector ≤ r.last := Nat.le_add_right _ _
  have hlast := mergeReq_last h.head_wf h.tail.head_wf (h.head_le r List.mem_cons_self)
  have hbelow : ∀ q ∈ r :: rest, 512 * cur.last < 512 * q.sector := by
    intro q hq
    obtain rfl | hq := List.mem_cons.mp hq
    · omega
    · have := h.tail.head_le q hq
      omega
  have heq := congrFun (hw cur (r :: rest) (SameShape.refl cur) (sameShape_forall₂_refl _)
    fun _ => 1) (512 * cur.last)
  have hreq : execute (cur :: r :: rest) (fun _ => 1) (512 * cur.last) = 1 := by
    apply execute_of_not_covers
    intro q hq hc
    obtain rfl | hq := List.mem_cons.mp hq
    · have := hc.2
      omega
    · have := hbelow q hq
      have := hc.1
      omega
  have hmerged : execute (mergeList d cur (r :: rest)) (fun _ => 1) (512 * cur.last) = 0 := by
    rw [mergeList, if_pos hm, execute_mergeList_below d h.merge _ (by omega)
      fun q hq => hbelow q (List.mem_cons_of_mem _ hq),
      mergeReq_write h.head_wf h.tail.head_wf (h.head_le r List.mem_cons_self),
      if_neg fun hc => by have := hc.1; omega, if_neg fun hc => by have := hc.1.2; omega,
      if_pos ⟨Nat.le_refl _, by omega⟩]
  rw [hreq, hmerged] at heq
  exact absurd heq (by decide)

/-- A sector that a merge drops and nothing writes later keeps its old contents. -/
theorem WritesSame.covered {d : MergeHook} (h : SortedWf (cur :: r :: rest))
    (hm : merges d cur r = true) (hw : WritesSame d cur (r :: rest)) {y : Nat} (hy : y < cur.last)
    (hry : r.last ≤ y) : ∃ q ∈ rest, q.sector ≤ y ∧ y < q.last := by
  by_contra hnone
  have hle := h.head_le r List.mem_cons_self
  have hrl : r.sector ≤ r.last := Nat.le_add_right _ _
  -- ones in the request that is cut, zeros in the others and on the device
  have hsr := (r.paint_shape 0)
  have hsc := (cur.paint_shape 1)
  have hshape : List.Forall₂ SameShape (cur :: r :: rest)
      (cur.paint 1 :: r.paint 0 :: rest.map (BlockRequest.paint · 0)) :=
    List.Forall₂.cons hsc (List.Forall₂.cons hsr (paint_forall₂ rest 0))
  have h' := h.shape hshape
  have heq := congrFun (hw _ _ hsc (List.Forall₂.cons hsr (paint_forall₂ rest 0)) fun _ => 0)
    (512 * y)
  have hzero : ∀ q ∈ rest.map (BlockRequest.paint · 0), q.ZeroAt (512 * y) := by
    intro q hq
    obtain ⟨p, hp, rfl⟩ := List.mem_map.mp hq
    exact BlockRequest.paint_zeroAt (h.tail.tail.wf p hp) _
  have hmerged :
    execute (mergeList d (cur.paint 1) (r.paint 0 :: rest.map (BlockRequest.paint · 0)))
      (fun _ => 0) (512 * y) = 0 := by
    rw [mergeList, if_pos (by rw [hsc.merges hsr, hm])]
    apply execute_mergeList_zero d h'.merge _ hzero rfl
    apply mergeReq_zeroAt h' (Or.inr _) (BlockRequest.paint_zeroAt h.tail.head_wf _)
    rw [hsr.last]
    omega
  have hreq : execute (cur.paint 1 :: r.paint 0 :: rest.map (BlockRequest.paint · 0))
      (fun _ => 0) (512 * y) = 1 := by
    rw [execute_cons, execute_of_not_covers]
    · have hc : (cur.paint 1).Covers (512 * y) :=
        (hsc.covers _).mpr ⟨by omega, by omega⟩
      rw [BlockRequest.write_of_covers hc, BlockRequest.paint_data h.head_wf 1 hc]
    · intro q hq hc
      obtain ⟨p, hp, hpq⟩ := exists_shape_of_mem (List.Forall₂.cons hsr (paint_forall₂ rest 0)) hq
      rw [hpq.covers, covers_iff_sector, Nat.mul_div_cancel_left y (by decide)] at hc
      obtain rfl | hp := List.mem_cons.mp hp
      · have := hc.2
        omega
      · exact hnone ⟨p, hp, hc⟩
  rw [hreq, hmerged] at heq
  exact absurd heq (by decide)

/-- **Nothing is lost only if** every merge is intact. -/
theorem WritesSame.intact {d : MergeHook} (h : SortedWf (cur :: rest))
    (hw : WritesSame d cur rest) : MergesIntactFrom d cur rest := by
  induction rest generalizing cur with
  | nil => exact trivial
  | cons r rest ih =>
    unfold MergesIntactFrom
    have hs := h.head_le r List.mem_cons_self
    by_cases hm : merges d cur r = true
    · rw [if_pos hm]
      have hg := hw.no_gap h hm
      refine ⟨hg, fun y hy hry => hw.covered h hm hy hry, ih h.merge ?_⟩
      intro m rest' hsm hsrest dev
      obtain ⟨cur', r', hsc, hsr, rfl⟩ := mergeReq_surj h.head_wf h.tail.head_wf hs hg hsm
      have hshape := List.Forall₂.cons hsc (List.Forall₂.cons hsr hsrest)
      have heq := hw cur' (r' :: rest') hsc (List.Forall₂.cons hsr hsrest) dev
      rw [mergeList, if_pos (by rw [hsc.merges hsr, hm])] at heq
      rw [heq, execute_mergeReq (h.shape hshape) (by rw [hsr.sector, hsc.last]; exact hg)]
      intro y hy hry
      rw [hsc.last] at hy
      rw [hsr.last] at hry
      exact exists_sector_of_shape hsrest (hw.covered h hm hy hry)
    · rw [if_neg hm]
      apply ih h.tail
      intro r' rest' hsr hsrest dev
      -- a first request that writes what is on the device
      have hlen : (List.ofFn fun i : Fin cur.qiov.size => dev (512 * cur.sector + i)).length
          = cur.qiov.size := List.length_ofFn
      obtain ⟨hsc, hdata⟩ := cur.withData_spec hlen
      have hwrite : (cur.withData (List.ofFn fun i : Fin cur.qiov.size =>
          dev (512 * cur.sector + i))).write dev = dev := by
        funext x
        unfold BlockRequest.write
        split
        · rename_i hc
          have hsize : cur.qiov.size = 512 * cur.nbSectors := h.head_wf
          rw [hsc.covers, BlockRequest.Covers, BlockRequest.last] at hc
          rw [hdata, hsc.sector, List.getD_eq_getElem?_getD,
            List.getElem?_eq_getElem (by rw [List.length_ofFn]; omega), List.getElem_ofFn]
          show dev _ = dev x
          congr 1
          show 512 * cur.sector + (x - 512 * cur.sector) = x
          omega
        · rfl
      have heq := hw _ _ hsc (List.Forall₂.cons hsr hsrest) dev
      rw [mergeList, if_neg (by rw [hsc.merges hsr]; exact hm), execute_cons, execute_cons,
        hwrite] at heq
      exact heq

end Sorted

/-- `IOV_MAX` of the host, and a driver without the hook. -/
def plainMerge : MergeHook := ⟨none, 1024⟩

/-- A request whose data are one byte again and again. -/
def filledRequest (sector nbSectors : Nat) (b : Byte) : BlockRequest :=
  ⟨sector, nbSectors, ⟨[List.replicate (512 * nbSectors) b]⟩⟩

end Qemu.Block
