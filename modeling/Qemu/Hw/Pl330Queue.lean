import Qemu.Lib.Runs
import Qemu.Lib.Stream
import Mathlib.Data.List.Perm.Basic

namespace Qemu.Hw

open Lib Function

/-!
# The request queues of the DMA controller (`pl330.c`)

Loads and stores wait in slots, in any order.  Every request has the tag of its channel and a
number: a channel's requests are issued in the order of their numbers, which are counted in eight
bits.

* `pl330InsnToQueue`, `pl330QueueFindInsn`, `pl330InsnFromQueue`, `pl330TagFromQueue` — the
  functions;
* `Pl330Queue.Ordered` — what the slots should hold, if these are the requests of every channel;
* `Tracks` — what holds of the slots between calls;
* `pl330Queue_ordered_iff` — runs: a channel may only be killed when none of its requests waits.
-/

/-- `PL330_UNTAGGED` -/
def PL330_UNTAGGED : Byte := 0xff

/-- What the slot of a request says besides its tag and number. -/
structure Pl330Request where
  addr : BitVec 32
  len : BitVec 32
  n : Int
  inc : Bool
  z : Bool
  deriving DecidableEq

/-- `pl330_queue_entry` -/
structure Pl330QueueEntry where
  request : Pl330Request
  tag : Byte
  seqn : Byte
  deriving DecidableEq

/-- `pl330_queue` -/
structure Pl330Queue where
  queue : List Pl330QueueEntry
  loSeqn : Byte → Byte
  hiSeqn : Byte → Byte

/-- The queue after `pl330_queue_init` and `pl330_queue_reset`, with a size that `cfg[5]` can be. -/
def pl330QueueInit (size : Fin 16) : Pl330Queue where
  queue := List.replicate (size + 1) ⟨⟨0, 0, 0, false, false⟩, PL330_UNTAGGED, 0⟩
  loSeqn := fun _ => 0
  hiSeqn := fun _ => 0

/-- `pl330_queue_find_empty` -/
def pl330QueueFindEmpty (s : Pl330Queue) : Option Nat :=
  s.queue.findIdx? fun e => e.tag = PL330_UNTAGGED

/-- `pl330_insn_to_queue`: `none` if the queue is full. -/
def pl330InsnToQueue (s : Pl330Queue) (request : Pl330Request) (tag : Byte) : Option Pl330Queue :=
  (pl330QueueFindEmpty s).map fun i =>
    { s with
      queue := s.queue.set i ⟨request, tag, s.hiSeqn tag⟩
      hiSeqn := update s.hiSeqn tag (s.hiSeqn tag + 1) }

/-- `pl330_queue_find_insn` -/
def pl330QueueFindInsn (s : Pl330Queue) (tag : Byte) : Option Nat :=
  s.queue.findIdx? fun e =>
    e.tag ≠ PL330_UNTAGGED ∧ e.seqn = s.loSeqn e.tag ∧
      (e.tag = tag ∨ tag = PL330_UNTAGGED ∨ e.request.z)

/-- `pl330_insn_from_queue` -/
def pl330InsnFromQueue (s : Pl330Queue) (i : Nat) (e : Pl330QueueEntry) : Pl330Queue :=
  { s with
    queue := s.queue.set i { e with tag := PL330_UNTAGGED }
    loSeqn := update s.loSeqn e.tag (s.loSeqn e.tag + 1) }

/-- `pl330_tag_from_queue` -/
def pl330TagFromQueue (s : Pl330Queue) (tag : Byte) : Pl330Queue :=
  { s with
    queue := s.queue.map fun e => if e.tag = tag then { e with tag := PL330_UNTAGGED } else e }

/-- The request after one of its transfers. -/
def Pl330Request.advance (r : Pl330Request) : Pl330Request :=
  { r with addr := if r.inc then r.addr + r.len else r.addr, n := r.n - 1 }

/-- What `pl330_exec_cycle` does with a request that is issued. -/
def issueEntry (s : Pl330Queue) (i : Nat) (e : Pl330QueueEntry) : Pl330Queue :=
  let e' := { e with request := e.request.advance }
  let s := { s with queue := s.queue.set i e' }
  if e'.request.n = 0 then pl330InsnFromQueue s i e' else s

/-! ### Runs -/

/-- The tag of a channel. -/
def chanTag (c : Fin 8) : Byte := BitVec.ofNat 8 c

/-- The requests of the channels that wait, in the order in which they were inserted. -/
abbrev Waiting := Byte → List Pl330Request

/-- An operation of the queue. -/
inductive QueueOp where
  | insert (request : Pl330Request) (c : Fin 8)
  /-- A request is looked for, and issued. -/
  | issue (tag : Byte)
  | kill (c : Fin 8)

/-- A request that is issued is the first of its channel that waits. -/
def QueueOp.exec (x : Pl330Queue × Waiting) : QueueOp → Pl330Queue × Waiting
  | .insert request c =>
    match pl330InsnToQueue x.1 request (chanTag c) with
    | some s => (s, update x.2 (chanTag c) (x.2 (chanTag c) ++ [request]))
    | none => x
  | .issue tag =>
    match (pl330QueueFindInsn x.1 tag).bind fun i => (x.1.queue[i]?).map fun e => (i, e) with
    | some (i, e) =>
      let r := e.request.advance
      (issueEntry x.1 i e,
        update x.2 e.tag
          (if r.n = 0 then (x.2 e.tag).tail else r :: (x.2 e.tag).tail))
    | none => x
  | .kill c =>
    (pl330TagFromQueue x.1 (chanTag c), update x.2 (chanTag c) [])

/-- The requests of a tag with their numbers, slot by slot. -/
def tagged (queue : List Pl330QueueEntry) (tag : Byte) : List (Pl330Request × Byte) :=
  (queue.filter fun e => e.tag = tag).map fun e => (e.request, e.seqn)

/-- Every channel has each number from `lo_seqn` up to `hi_seqn` once; only the first request of a
channel that waits is found, and it is found if there is one. -/
structure Pl330Queue.Ordered (s : Pl330Queue) (waiting : Waiting) : Prop where
  seqns : ∀ c : Fin 8, ((tagged s.queue (chanTag c)).map Prod.snd).Perm
    ((List.range (s.hiSeqn (chanTag c) - s.loSeqn (chanTag c)).toNat).map fun j =>
      s.loSeqn (chanTag c) + BitVec.ofNat 8 j)
  first : ∀ tag i e, pl330QueueFindInsn s tag = some i → s.queue[i]? = some e →
    (waiting e.tag).head? = some e.request
  found : ∀ c : Fin 8, waiting (chanTag c) ≠ [] → pl330QueueFindInsn s (chanTag c) ≠ none

/-- No channel is killed while its requests wait. -/
def QueueOp.Allowed (x : Pl330Queue × Waiting) : QueueOp → Prop
  | .kill c => tagged x.1.queue (chanTag c) = []
  | _ => True

/-! ### What the slots hold -/

/-- Requests numbered from `lo` on. -/
def numbered : Byte → List Pl330Request → List (Pl330Request × Byte)
  | _, [] => []
  | lo, r :: l => (r, lo) :: numbered (lo + 1) l

theorem seqn_succ (lo : Byte) (j : Nat) :
    lo + 1 + BitVec.ofNat 8 j = lo + BitVec.ofNat 8 (j + 1) := by
  rw [BitVec.ofNat_add, BitVec.add_assoc]
  exact congrArg (lo + ·) (BitVec.add_comm _ _)

theorem numbered_append (lo : Byte) (l : List Pl330Request) (r : Pl330Request) :
    numbered lo (l ++ [r]) = numbered lo l ++ [(r, lo + BitVec.ofNat 8 l.length)] := by
  induction l generalizing lo with
  | nil => simp [numbered]
  | cons a l ih => rw [List.cons_append, numbered, ih, seqn_succ]; rfl

theorem map_snd_numbered (lo : Byte) (l : List Pl330Request) :
    (numbered lo l).map Prod.snd = (List.range l.length).map fun j => lo + BitVec.ofNat 8 j := by
  induction l generalizing lo with
  | nil => rfl
  | cons a l ih =>
    rw [numbered, List.map_cons, ih, List.length_cons, List.range_succ_eq_map, List.map_cons,
      List.map_map, funext (seqn_succ lo)]
    simp [Function.comp_def]

@[simp] theorem length_numbered (lo : Byte) (l : List Pl330Request) :
    (numbered lo l).length = l.length := by
  rw [← List.length_map, map_snd_numbered, List.length_map, List.length_range]

/-- The numbers are different as long as there are few. -/
theorem eq_cons_of_mem_numbered {lo : Byte} {l : List Pl330Request} {r : Pl330Request}
    (hlen : l.length ≤ 16) (h : (r, lo) ∈ numbered lo l) : ∃ l', l = r :: l' := by
  cases l with
  | nil => simp [numbered] at h
  | cons a l =>
    rw [numbered, List.mem_cons] at h
    obtain h | h := h
    · exact ⟨l, by rw [(Prod.mk.inj h).1]⟩
    · exfalso
      have hmem := List.mem_map_of_mem (f := Prod.snd) h
      rw [map_snd_numbered, List.mem_map] at hmem
      obtain ⟨j, hj, heq⟩ := hmem
      rw [List.mem_range] at hj
      rw [List.length_cons] at hlen
      rw [seqn_succ] at heq
      have hnat := congrArg BitVec.toNat (BitVec.add_right_eq_self.mp heq)
      simp only [BitVec.toNat_ofNat] at hnat
      omega

theorem tagged_cons (e : Pl330QueueEntry) (l : List Pl330QueueEntry) (tag : Byte) :
    tagged (e :: l) tag =
      if e.tag = tag then (e.request, e.seqn) :: tagged l tag else tagged l tag := by
  by_cases h : e.tag = tag <;> simp [tagged, h]

theorem tagged_set {l : List Pl330QueueEntry} {i : Nat} {e : Pl330QueueEntry} (he : l[i]? = some e)
    (e' : Pl330QueueEntry) (tag : Byte) :
    (tagged l tag).Perm (tagged (e :: l.eraseIdx i) tag) ∧
      (tagged (l.set i e') tag).Perm (tagged (e' :: l.eraseIdx i) tag) := by
  obtain ⟨hi, rfl⟩ := List.getElem?_eq_some_iff.mp he
  exact ⟨((List.getElem_cons_eraseIdx_perm hi).symm.filter _).map _,
    ((List.set_perm_cons_eraseIdx hi e').filter _).map _⟩

theorem chanTag_ne_untagged (c : Fin 8) : chanTag c ≠ PL330_UNTAGGED := by
  revert c
  decide

theorem chanTag_inj {c c' : Fin 8} (h : chanTag c = chanTag c') : c = c' := by
  revert c c'
  decide

/-- The slots of a channel are its requests that wait, numbered from `lo_seqn` on. -/
structure Tracks (s : Pl330Queue) (waiting : Waiting) : Prop where
  size : s.queue.length ≤ 16
  tags : ∀ e ∈ s.queue, e.tag = PL330_UNTAGGED ∨ ∃ c, e.tag = chanTag c
  perm : ∀ c, (tagged s.queue (chanTag c)).Perm
    (numbered (s.loSeqn (chanTag c)) (waiting (chanTag c)))
  hi : ∀ c, s.hiSeqn (chanTag c) =
    s.loSeqn (chanTag c) + BitVec.ofNat 8 (waiting (chanTag c)).length

section

variable {s : Pl330Queue} {waiting : Waiting} (h : Tracks s waiting)

include h

theorem Tracks.length_eq (c : Fin 8) :
    (tagged s.queue (chanTag c)).length = (waiting (chanTag c)).length := by
  rw [(h.perm c).length_eq, length_numbered]

theorem Tracks.length_le (c : Fin 8) : (waiting (chanTag c)).length ≤ 16 := by
  rw [← h.length_eq]
  refine le_trans ?_ h.size
  rw [tagged, List.length_map]
  exact List.length_filter_le _ _

theorem Tracks.count (c : Fin 8) :
    (s.hiSeqn (chanTag c) - s.loSeqn (chanTag c)).toNat = (waiting (chanTag c)).length := by
  have hle := h.length_le c
  have hlo := (s.loSeqn (chanTag c)).isLt
  rw [h.hi, BitVec.toNat_sub, BitVec.toNat_add, BitVec.toNat_ofNat]
  omega

/-- An entry with the first number of its channel is the first that waits. -/
theorem Tracks.first {e : Pl330QueueEntry} (he : e ∈ s.queue) (hne : e.tag ≠ PL330_UNTAGGED)
    (hseqn : e.seqn = s.loSeqn e.tag) :
    ∃ c l, e.tag = chanTag c ∧ waiting (chanTag c) = e.request :: l := by
  obtain ⟨c, hc⟩ := (h.tags e he).resolve_left hne
  rw [hc] at hseqn
  have hmem : (e.request, s.loSeqn (chanTag c)) ∈ tagged s.queue (chanTag c) := by
    rw [← hseqn]
    exact List.mem_map_of_mem (List.mem_filter.mpr ⟨he, by simpa using hc⟩)
  obtain ⟨l, hl⟩ := eq_cons_of_mem_numbered (h.length_le c) ((h.perm c).mem_iff.mp hmem)
  exact ⟨c, l, hc, hl⟩

/-- A request that is inserted waits behind the others. -/
theorem Tracks.insert {s' : Pl330Queue} {request : Pl330Request} {c : Fin 8}
    (hs' : pl330InsnToQueue s request (chanTag c) = some s') :
    Tracks s'
      (update waiting (chanTag c) (waiting (chanTag c) ++ [request])) := by
  obtain ⟨i, hi, rfl⟩ := Option.map_eq_some_iff.mp hs'
  obtain ⟨hlt, huntagged, -⟩ := List.findIdx?_eq_some_iff_getElem.mp hi
  have huntagged : s.queue[i].tag = PL330_UNTAGGED := by simpa using huntagged
  have hset := tagged_set (List.getElem?_eq_getElem hlt) ⟨request, chanTag c, s.hiSeqn (chanTag c)⟩
  -- the request goes behind those of its channel, with the next number
  refine ⟨by simpa using h.size, ?_, fun c' => ?_, fun c' => ?_⟩
  · intro e he
    obtain he | rfl := List.mem_or_eq_of_mem_set he
    · exact h.tags e he
    · exact Or.inr ⟨c, rfl⟩
  · obtain ⟨hold, hnew⟩ := hset (chanTag c')
    rw [tagged_cons, huntagged, if_neg (chanTag_ne_untagged c').symm] at hold
    rw [tagged_cons] at hnew
    dsimp only
    by_cases hc : c = c'
    · subst hc
      rw [if_pos rfl] at hnew
      rw [update_self, numbered_append, ← h.hi]
      exact (hnew.trans ((hold.symm.trans (h.perm c)).cons _)).trans
        (List.perm_append_singleton _ _).symm
    · have hne : chanTag c' ≠ chanTag c := fun heq => hc (chanTag_inj heq).symm
      rw [if_neg hne.symm] at hnew
      rw [update_of_ne hne]
      exact hnew.trans (hold.symm.trans (h.perm c'))
  · dsimp only
    by_cases hc : c = c'
    · subst hc
      rw [update_self, update_self, h.hi, List.length_append, BitVec.ofNat_add,
        BitVec.add_assoc]
      rfl
    · have hne : chanTag c' ≠ chanTag c := fun heq => hc (chanTag_inj heq).symm
      rw [update_of_ne hne, update_of_ne hne, h.hi]

/-- The first request of a channel changes, or it is done. -/
theorem Tracks.issue {i : Nat} {e : Pl330QueueEntry} (he : s.queue[i]? = some e)
    (hne : e.tag ≠ PL330_UNTAGGED) (hseqn : e.seqn = s.loSeqn e.tag) :
    Tracks (issueEntry s i e)
      (update waiting e.tag
        (if e.request.advance.n = 0 then (waiting e.tag).tail
          else e.request.advance :: (waiting e.tag).tail)) := by
  obtain ⟨c, l, hc, hl⟩ := h.first (List.mem_of_getElem? he) hne hseqn
  have hhi := h.hi c
  rw [hc] at hseqn ⊢
  rw [hl, List.tail_cons]
  -- the other slots of the channel
  have hrest := (tagged_set he e (chanTag c)).1.symm.trans (h.perm c)
  rw [tagged_cons, if_pos hc, hl, numbered, hseqn, List.perm_cons] at hrest
  have hother {c' : Fin 8} (hcc : c' ≠ c) (e' : Pl330QueueEntry)
      (he' : e'.tag ≠ chanTag c') : (tagged (s.queue.set i e') (chanTag c')).Perm
        (numbered (s.loSeqn (chanTag c')) (waiting (chanTag c'))) := by
    obtain ⟨hold, hnew⟩ := tagged_set he e' (chanTag c')
    rw [tagged_cons, hc, if_neg fun heq => hcc (chanTag_inj heq).symm] at hold
    rw [tagged_cons, if_neg he'] at hnew
    exact hnew.trans (hold.symm.trans (h.perm c'))
  have htags (e' : Pl330QueueEntry) (he' : e'.tag = PL330_UNTAGGED ∨ e'.tag = chanTag c) :
      ∀ x ∈ s.queue.set i e', x.tag = PL330_UNTAGGED ∨ ∃ c, x.tag = chanTag c := by
    intro x hx
    obtain hx | rfl := List.mem_or_eq_of_mem_set hx
    · exact h.tags x hx
    · exact he'.imp_right fun heq => ⟨c, heq⟩
  rw [issueEntry]
  dsimp only
  by_cases hn : e.request.advance.n = 0
  · rw [if_pos hn, if_pos hn, pl330InsnFromQueue, List.set_set]
    simp only [hc]
    refine ⟨by simpa using h.size, htags _ (Or.inl rfl), fun c' => ?_, fun c' => ?_⟩
    · dsimp only
      by_cases hcc : c' = c
      · subst hcc
        have hnew := (tagged_set he { e with
          request := e.request.advance, tag := PL330_UNTAGGED } (chanTag c')).2
        rw [tagged_cons, if_neg (chanTag_ne_untagged c').symm] at hnew
        rw [update_self, update_self]
        exact hnew.trans hrest
      · have hne' : chanTag c' ≠ chanTag c := fun heq => hcc (chanTag_inj heq)
        rw [update_of_ne hne', update_of_ne hne']
        exact hother hcc _ (chanTag_ne_untagged c').symm
    · dsimp only
      by_cases hcc : c' = c
      · subst hcc
        rw [update_self, update_self, seqn_succ, hhi, hl]
        rfl
      · have hne' : chanTag c' ≠ chanTag c := fun heq => hcc (chanTag_inj heq)
        rw [update_of_ne hne', update_of_ne hne', h.hi]
  · rw [if_neg hn, if_neg hn]
    refine ⟨by simpa using h.size, htags _ (Or.inr hc), fun c' => ?_, fun c' => ?_⟩
    · by_cases hcc : c' = c
      · subst hcc
        have hnew := (tagged_set he { e with request := e.request.advance } (chanTag c')).2
        rw [tagged_cons, if_pos hc] at hnew
        rw [update_self, numbered]
        refine hnew.trans ?_
        dsimp only
        rw [hseqn]
        exact hrest.cons _
      · have hne' : chanTag c' ≠ chanTag c := fun heq => hcc (chanTag_inj heq)
        rw [update_of_ne hne']
        exact hother hcc _ fun heq => hne' (heq.symm.trans hc)
    · by_cases hcc : c' = c
      · subst hcc
        rw [update_self, hhi, hl]
        rfl
      · have hne' : chanTag c' ≠ chanTag c := fun heq => hcc (chanTag_inj heq)
        rw [update_of_ne hne', h.hi]

/-- A channel none of whose requests waits is killed. -/
theorem Tracks.kill {c : Fin 8} (hempty : tagged s.queue (chanTag c) = []) :
    Tracks (pl330TagFromQueue s (chanTag c)) (update waiting (chanTag c) []) := by
  have hwaiting : waiting (chanTag c) = [] := by
    rw [← List.length_eq_zero_iff, ← h.length_eq, hempty]
    rfl
  have hsame : pl330TagFromQueue s (chanTag c) = s := by
    have hnone : ∀ e ∈ s.queue, e.tag ≠ chanTag c := by
      simpa [tagged] using hempty
    have hmap : (s.queue.map fun e =>
        if e.tag = chanTag c then { e with tag := PL330_UNTAGGED } else e) = s.queue := by
      nth_rewrite 2 [← List.map_id s.queue]
      apply List.map_congr_left
      intro e he
      rw [if_neg (hnone e he), id]
    rw [pl330TagFromQueue, hmap]
  rw [hsame, ← hwaiting, update_eq_self]
  exact h

/-- The numbers of the requests that are lost are missed. -/
theorem Tracks.kill_breaks {c : Fin 8} (hne : tagged s.queue (chanTag c) ≠ []) (w : Waiting) :
    ¬(pl330TagFromQueue s (chanTag c)).Ordered w := by
  intro hord
  have hnone : tagged (pl330TagFromQueue s (chanTag c)).queue (chanTag c) = [] := by
    rw [tagged, List.map_eq_nil_iff, List.filter_eq_nil_iff]
    intro e he
    simp only [pl330TagFromQueue, List.mem_map] at he
    obtain ⟨e₀, -, rfl⟩ := he
    split
    · simpa using (chanTag_ne_untagged c).symm
    · simpa
  have hlen := (hord.seqns c).length_eq
  rw [hnone, List.length_map, List.length_map, List.length_range] at hlen
  change 0 = (s.hiSeqn (chanTag c) - s.loSeqn (chanTag c)).toNat at hlen
  rw [h.count, ← h.length_eq] at hlen
  exact hne (List.length_eq_zero_iff.mp hlen.symm)

/-- The entries of a channel are in the order of its requests. -/
theorem Tracks.ordered : s.Ordered waiting where
  seqns c := by
    rw [h.count, ← map_snd_numbered]
    exact (h.perm c).map _
  first tag i e hi he := by
    obtain ⟨hlt, hp, -⟩ := List.findIdx?_eq_some_iff_getElem.mp hi
    rw [List.getElem?_eq_getElem hlt] at he
    obtain rfl := Option.some.inj he
    simp only [ne_eq, decide_eq_true_eq] at hp
    obtain ⟨c, l, hc, hl⟩ := h.first (List.getElem_mem hlt) hp.1 hp.2.1
    rw [hc, hl, List.head?_cons]
  found c hne hnone := by
    obtain ⟨r, l, hl⟩ := List.exists_cons_of_ne_nil hne
    have hmem : (r, s.loSeqn (chanTag c)) ∈ tagged s.queue (chanTag c) := by
      rw [(h.perm c).mem_iff, hl]
      exact List.mem_cons_self
    obtain ⟨e, he, heq⟩ := List.mem_map.mp hmem
    obtain ⟨heq', htag⟩ := List.mem_filter.mp he
    have htag : e.tag = chanTag c := by simpa using htag
    have hskip := List.findIdx?_eq_none_iff.mp hnone e heq'
    simp only [ne_eq, decide_eq_false_iff_not] at hskip
    refine hskip ⟨?_, ?_, Or.inl htag⟩
    · rw [htag]
      exact chanTag_ne_untagged c
    · rw [htag]
      exact (Prod.mk.inj heq).2

end

/-! ### Runs -/

/-- An operation that is allowed keeps the track. -/
theorem Tracks.exec {x : Pl330Queue × Waiting} (h : Tracks x.1 x.2) {op : QueueOp}
    (hop : op.Allowed x) : Tracks (op.exec x).1 (op.exec x).2 := by
  cases op with
  | insert request c =>
    simp only [QueueOp.exec]
    cases hs' : pl330InsnToQueue x.1 request (chanTag c) with
    | none => exact h
    | some s' => exact h.insert hs'
  | issue tag =>
    simp only [QueueOp.exec]
    cases hfind : (pl330QueueFindInsn x.1 tag).bind fun i =>
        (x.1.queue[i]?).map fun e => (i, e) with
    | none => exact h
    | some p =>
      obtain ⟨i, hi, hp⟩ := Option.bind_eq_some_iff.mp hfind
      obtain ⟨e, he, rfl⟩ := Option.map_eq_some_iff.mp hp
      obtain ⟨hlt, hpred, -⟩ := List.findIdx?_eq_some_iff_getElem.mp hi
      rw [List.getElem?_eq_getElem hlt] at he
      obtain rfl := Option.some.inj he
      simp only [ne_eq, decide_eq_true_eq] at hpred
      exact h.issue (List.getElem?_eq_getElem hlt) hpred.1 hpred.2.1
  | kill c => exact h.kill hop

theorem tracks_init (size : Fin 16) : Tracks (pl330QueueInit size) fun _ => [] where
  size := by
    rw [pl330QueueInit, List.length_replicate]
    omega
  tags e he := Or.inl (by rw [List.eq_of_mem_replicate he])
  perm c := by
    have hnone : tagged (pl330QueueInit size).queue (chanTag c) = [] := by
      simp [tagged, pl330QueueInit, (chanTag_ne_untagged c).symm]
    rw [hnone]
    exact List.Perm.nil
  hi c := rfl

/-- **Order.**  All along a run every channel has the numbers it should have, and its requests can
be issued, and only in the order in which they were inserted, exactly if no channel is killed while
its requests wait. -/
theorem pl330Queue_ordered_iff (size : Fin 16) (ops : List QueueOp) :
    (∀ n, let x := (ops.take n).foldl QueueOp.exec (pl330QueueInit size, fun _ => [])
      x.1.Ordered x.2) ↔
      StepsMeet (fun x op => some (QueueOp.exec x op)) (fun x op => op.Allowed x)
        (pl330QueueInit size, fun _ => []) ops :=
  foldl_all_iff (I := fun x : Pl330Queue × Waiting => Tracks x.1 x.2)
    (R := fun x => x.1.Ordered x.2)
    (fun _ h => h.ordered) (fun _ _ h hop => h.exec hop)
    (fun x op h hop => by
      cases op with
      | kill c => exact h.kill_breaks hop _
      | insert request c => exact absurd trivial hop
      | issue tag => exact absurd trivial hop)
    (tracks_init size) ops

/-- A channel is killed while a request waits.  The next request of the channel is never found. -/
theorem pl330Queue_ordered_killed :
    let r : Pl330Request := ⟨0x1000, 4, 1, true, false⟩
    let c : Fin 8 := ⟨0, by decide⟩
    let x : Pl330Queue × Waiting := [.insert r c, .kill c, .insert r c].foldl QueueOp.exec
      (pl330QueueInit ⟨3, by decide⟩, fun _ => [])
    x.2 (chanTag c) = [r] ∧ pl330QueueFindInsn x.1 (chanTag c) = none ∧
      pl330QueueFindInsn x.1 PL330_UNTAGGED = none := by
  decide

end Qemu.Hw
