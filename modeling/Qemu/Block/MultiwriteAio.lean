import Qemu.Block.Multiwrite
import Qemu.Lib.Runs
import Mathlib.Data.Finset.Card

namespace Qemu.Block

open Qemu.Lib

/-!
# Submitting merged requests (`bdrv_aio_multiwrite` of `block.c`)

The requests share a control block that counts those in flight; the driver may complete any request
it has accepted, also while it is being asked to take another.

* `multiwriteCb`, `multiwriteUserCb` — the completion of a merged request;
* `MwAction`, `MwAction.exec` — submission, acceptance, refusal and completion, one at a time;
* `MwInv` — what every run keeps in which no completion before the end of the
  submission takes the counter to zero;
* `bdrvAioMultiwrite_once` — so each callback runs once and the control block is freed once.
-/

/-! ### The control block -/

/-- `MultiwriteCB`; what there is to free with each callback is left out. -/
structure MultiwriteCB where
  error : Int
  numRequests : Int
  numCallbacks : Nat
deriving DecidableEq, Repr

/-- Where `bdrv_aio_multiwrite` is: before the request `i`, in `bdrv_aio_writev` for it, whose
    completion has perhaps been run, or done. -/
inductive MwPc
  | loop (i : Nat)
  | submitting (i : Nat) (completed : Bool)
  | returned (ret : Int)
deriving DecidableEq, Repr

/-- A call of `bdrv_aio_multiwrite`: the control block until it is freed, how often one was
    allocated and freed, the callbacks run with their status, the requests the driver has still to
    complete and the errors reported in the requests. -/
structure Mw where
  mcb : Option MultiwriteCB
  allocs : Nat
  frees : Nat
  calls : List (Nat × Int)
  inFlight : Finset Nat
  reqError : Nat → Int
  pc : MwPc

/-- `multiwrite_user_cb` -/
def multiwriteUserCb (mcb : MultiwriteCB) (s : Mw) : Mw :=
  { s with calls := s.calls ++ (List.range mcb.numCallbacks).map fun i => (i, mcb.error) }

/-- The first half of `multiwrite_cb`: the first error is reported at once. -/
def multiwriteFail (ret : Int) (mcb : MultiwriteCB) (s : Mw) : MultiwriteCB × Mw :=
  if ret < 0 ∧ mcb.error = 0 then
    ({ mcb with error := ret }, multiwriteUserCb { mcb with error := ret } s)
  else (mcb, s)

/-- The second half: the last completion reports success and frees the control block. -/
def multiwriteDone (mcb : MultiwriteCB) (s : Mw) : Mw :=
  let mcb := { mcb with numRequests := mcb.numRequests - 1 }
  if mcb.numRequests = 0 then
    let s := if mcb.error = 0 then multiwriteUserCb mcb s else s
    { s with mcb := none, frees := s.frees + 1 }
  else { s with mcb := some mcb }

/-- `multiwrite_cb`; `none` when the control block is used after it was freed. -/
def multiwriteCb (ret : Int) (s : Mw) : Option Mw :=
  s.mcb.map fun mcb =>
    let (mcb, s) := multiwriteFail ret mcb s
    multiwriteDone mcb s

/-- `-EIO` -/
def eio : Int := -5

/-! ### Actions -/

/-- `bdrv_aio_writev` is called; it runs its callback or that of another request; it returns a
    control block or `NULL`. -/
inductive MwAction
  | submit
  | complete (j : Nat) (ret : Int)
  | accept
  | reject
deriving DecidableEq, Repr

/-- A driver completes what it was given, in its `bdrv_aio_writev` or later, and refuses no request
    it has completed. -/
def MwAction.Possible (s : Mw) : MwAction → Prop
  | .submit => ∃ i, s.pc = .loop i
  | .complete j _ => j ∈ s.inFlight
  | .accept => ∃ i completed, s.pc = .submitting i completed
  | .reject => ∃ i, s.pc = .submitting i false

/-- The rest of an iteration of the loop after the driver has accepted the request. -/
def acceptRequest (numReqs i : Nat) (s : Mw) : Option Mw :=
  s.mcb.map fun mcb =>
    { s with
      mcb := some { mcb with numRequests := mcb.numRequests + 1 }
      pc := if i + 1 < numReqs then .loop (i + 1) else .returned 0 }

/-- The rest of an iteration of the loop after the driver has refused the request. -/
def rejectRequest (i : Nat) (s : Mw) : Option Mw :=
  s.mcb.bind fun mcb =>
    let s := { s with inFlight := s.inFlight.erase i }
    if mcb.numRequests = 0 then
      some { s with
        reqError := Function.update s.reqError i eio
        mcb := none
        frees := s.frees + 1
        pc := .returned (-1) }
    else
      (multiwriteCb eio { s with
        mcb := some { mcb with numRequests := mcb.numRequests + 1 } }).map fun s =>
        { s with pc := .returned 0 }

/-- One step, if it does not fault. -/
def MwAction.exec (numReqs : Nat) (s : Mw) : MwAction → Option Mw
  | .submit =>
    match s.pc with
    | .loop i => some { s with inFlight := insert i s.inFlight, pc := .submitting i false }
    | _ => some s
  | .complete j ret =>
    multiwriteCb ret { s with
      inFlight := s.inFlight.erase j
      pc := if s.pc = .submitting j false then .submitting j true else s.pc }
  | .accept =>
    match s.pc with
    | .submitting i _ => acceptRequest numReqs i s
    | _ => some s
  | .reject =>
    match s.pc with
    | .submitting i _ => rejectRequest i s
    | _ => some s

/-- `bdrv_aio_multiwrite` before the loop; without requests it is done. -/
def Mw.start (numReqs : Nat) : Mw where
  mcb := if numReqs = 0 then none else some ⟨0, 0, numReqs⟩
  allocs := if numReqs = 0 then 0 else 1
  frees := 0
  calls := []
  inFlight := ∅
  reqError := fun _ => 0
  pc := if numReqs = 0 then .returned 0 else .loop 0

/-- A completion before `bdrv_aio_multiwrite` has returned leaves another request counted. -/
def MwAction.Late (s : Mw) : MwAction → Prop
  | .complete _ _ => (∃ ret, s.pc = .returned ret) ∨ ∃ mcb, s.mcb = some mcb ∧ 2 ≤ mcb.numRequests
  | _ => True

instance MwAction.decidablePossible (s : Mw) : ∀ a : MwAction, Decidable (a.Possible s)
  | .submit =>
    match h : s.pc with
    | .loop i => isTrue ⟨i, h⟩
    | .submitting _ _ => isFalse fun ⟨_, hi⟩ => by rw [h] at hi; cases hi
    | .returned _ => isFalse fun ⟨_, hi⟩ => by rw [h] at hi; cases hi
  | .complete j _ => inferInstanceAs (Decidable (j ∈ s.inFlight))
  | .accept =>
    match h : s.pc with
    | .submitting i completed => isTrue ⟨i, completed, h⟩
    | .loop _ => isFalse fun ⟨_, _, hi⟩ => by rw [h] at hi; cases hi
    | .returned _ => isFalse fun ⟨_, _, hi⟩ => by rw [h] at hi; cases hi
  | .reject =>
    match h : s.pc with
    | .submitting i false => isTrue ⟨i, h⟩
    | .submitting _ true => isFalse fun ⟨_, hi⟩ => by rw [h] at hi; cases hi
    | .loop _ => isFalse fun ⟨_, hi⟩ => by rw [h] at hi; cases hi
    | .returned _ => isFalse fun ⟨_, hi⟩ => by rw [h] at hi; cases hi

instance MwAction.decidableLate (s : Mw) : ∀ a : MwAction, Decidable (a.Late s)
  | .complete _ _ =>
    match h : s.pc, hm : s.mcb with
    | .returned ret, _ => isTrue (Or.inl ⟨ret, h⟩)
    | .loop _, none | .submitting _ _, none => isFalse fun hl => by
        obtain ⟨_, hr⟩ | ⟨_, hb, _⟩ := hl
        · rw [h] at hr; cases hr
        · rw [hm] at hb; cases hb
    | .loop _, some mcb | .submitting _ _, some mcb =>
      decidable_of_iff (2 ≤ mcb.numRequests) ⟨fun htwo => Or.inr ⟨mcb, hm, htwo⟩, fun hl => by
        obtain ⟨_, hr⟩ | ⟨_, hb, htwo⟩ := hl
        · rw [h] at hr; cases hr
        · rw [hm] at hb; cases hb; exact htwo⟩
  | .submit | .accept | .reject => isTrue trivial

/-! ### The invariant -/

/-- The callbacks, each run once with the same status. -/
def userCalls (n : Nat) (error : Int) : List (Nat × Int) := (List.range n).map fun i => (i, error)

/-- The callbacks run so far: none, or all of them if an error has been reported. -/
def reported (n : Nat) (error : Int) : List (Nat × Int) :=
  if error = 0 then [] else userCalls n error

/-- The counter.  The request in `bdrv_aio_writev` is not counted yet, but its completion may have
    been; from the second request on there is always one counted. -/
def Counted (s : Mw) (mcb : MultiwriteCB) : Prop :=
  match s.pc with
  | .loop i =>
    mcb.numRequests = s.inFlight.card ∧ (i = 0 → mcb.error = 0 ∧ s.inFlight = ∅) ∧
      (i ≠ 0 → 1 ≤ mcb.numRequests) ∧ ∀ j ∈ s.inFlight, j < i
  | .submitting i completed =>
    mcb.numRequests + 1 = s.inFlight.card ∧ (i = 0 → mcb.error = 0 ∧ s.inFlight = {0}) ∧
      (i ≠ 0 → 1 ≤ mcb.numRequests) ∧ (∀ j ∈ s.inFlight, j < i ∨ (j = i ∧ completed = false)) ∧
      (completed = false → i ∈ s.inFlight)
  | .returned ret => ret = 0 ∧ mcb.numRequests = s.inFlight.card ∧ 1 ≤ mcb.numRequests

/-- The control block is in use. -/
structure MwAlive (n : Nat) (mcb : MultiwriteCB) (s : Mw) : Prop where
  block : s.mcb = some mcb
  allocs : s.allocs = 1
  frees : s.frees = 0
  callbacks : mcb.numCallbacks = n
  calls : s.calls = reported n mcb.error
  counted : Counted s mcb

/-- There is no control block any more: all is done. -/
structure MwFreed (n : Nat) (s : Mw) : Prop where
  block : s.mcb = none
  frees : s.frees = s.allocs
  allocs : s.allocs ≤ 1
  inFlight : s.inFlight = ∅
  calls : (s.pc = .returned 0 ∧ ∃ error, s.calls = userCalls n error) ∨
    (s.pc = .returned (-1) ∧ s.calls = [])

/-- The invariant of `bdrv_aio_multiwrite` with `n` requests. -/
def MwInv (n : Nat) (s : Mw) : Prop := (∃ mcb, MwAlive n mcb s) ∨ MwFreed n s

theorem MwInv.start (n : Nat) : MwInv n (Mw.start n) := by
  by_cases hn : n = 0
  · subst hn
    exact Or.inr ⟨rfl, rfl, by decide, rfl, Or.inl ⟨rfl, 0, rfl⟩⟩
  · refine Or.inl ⟨⟨0, 0, n⟩, ?_, ?_, rfl, rfl, rfl, ?_⟩
    · simp [Mw.start, hn]
    · simp [Mw.start, hn]
    · simp [Counted, Mw.start, hn]

/-- **A completion.**  It counts the request down; the last one frees the control block after all
    callbacks have run. -/
theorem multiwriteCb_spec {n : Nat} {mcb : MultiwriteCB} {s : Mw} (ret : Int)
    (hm : s.mcb = some mcb) (hn : mcb.numCallbacks = n) (hc : s.calls = reported n mcb.error) :
    ∃ error,
      multiwriteCb ret s = some (if mcb.numRequests - 1 = 0 then
        { s with mcb := none, frees := s.frees + 1, calls := userCalls n error }
      else
        { s with mcb := some ⟨error, mcb.numRequests - 1, n⟩, calls := reported n error }) := by
  subst hn
  unfold multiwriteCb
  rw [hm, Option.map_some]
  by_cases hf : ret < 0 ∧ mcb.error = 0
  -- the first error
  · have hret : ret ≠ 0 := by omega
    refine ⟨ret, ?_⟩
    rw [multiwriteFail, if_pos hf]
    simp only [multiwriteDone, multiwriteUserCb, hret, hc, hf.2, reported, if_true, if_false,
      List.nil_append]
    split <;> rfl
  · refine ⟨mcb.error, ?_⟩
    rw [multiwriteFail, if_neg hf]
    simp only [multiwriteDone, multiwriteUserCb]
    by_cases he : mcb.error = 0
    · simp only [he, hc, reported, if_true, List.nil_append]
      split <;> rfl
    · simp only [he, hc, reported, if_false]

/-! ### Steps and runs -/

section Step

variable {n : Nat} {mcb : MultiwriteCB} {s : Mw}

/-- The next request is submitted. -/
theorem MwAlive.submit (h : MwAlive n mcb s) (numReqs : Nat) (hp : MwAction.submit.Possible s) :
    ∃ s', MwAction.submit.exec numReqs s = some s' ∧ MwInv n s' := by
  obtain ⟨i, hi⟩ := hp
  have hc := h.counted
  simp only [Counted, hi] at hc
  obtain ⟨hnum, hzero, hpos, hlt⟩ := hc
  have hni : i ∉ s.inFlight := fun hmem => absurd (hlt i hmem) (Nat.lt_irrefl i)
  refine ⟨{ s with inFlight := insert i s.inFlight, pc := .submitting i false }, ?_,
    Or.inl ⟨mcb, h.block, h.allocs, h.frees, h.callbacks, h.calls, ?_⟩⟩
  · simp only [MwAction.exec, hi]
  · show mcb.numRequests + 1 = ((insert i s.inFlight).card : Int) ∧ _
    rw [Finset.card_insert_of_notMem hni]
    refine ⟨by push_cast; omega, fun h0 => ?_, hpos, fun j hj => ?_,
      fun _ => Finset.mem_insert_self _ _⟩
    · obtain ⟨herr, hempty⟩ := hzero h0
      exact ⟨herr, by rw [hempty, h0]; rfl⟩
    · obtain rfl | hj := Finset.mem_insert.mp hj
      · exact Or.inr ⟨rfl, rfl⟩
      · exact Or.inl (hlt j hj)

/-- The driver accepts it. -/
theorem MwAlive.accept (h : MwAlive n mcb s) (numReqs : Nat) (hp : MwAction.accept.Possible s) :
    ∃ s', MwAction.accept.exec numReqs s = some s' ∧ MwInv n s' := by
  obtain ⟨i, completed, hi⟩ := hp
  have hc := h.counted
  simp only [Counted, hi] at hc
  obtain ⟨hnum, hzero, hpos, hlt, -⟩ := hc
  have hone : 1 ≤ mcb.numRequests + 1 := by
    by_cases h0 : i = 0
    · rw [(hzero h0).2, Finset.card_singleton] at hnum
      omega
    · have := hpos h0
      omega
  simp only [MwAction.exec, hi, acceptRequest, h.block, Option.map_some]
  refine ⟨_, rfl, Or.inl ⟨_, rfl, h.allocs, h.frees, h.callbacks, h.calls, ?_⟩⟩
  by_cases hlast : i + 1 < numReqs
  · simp only [Counted, if_pos hlast]
    refine ⟨hnum, fun h0 => absurd h0 (Nat.succ_ne_zero i), fun _ => hone, fun j hj => ?_⟩
    obtain hj | ⟨hj, -⟩ := hlt j hj <;> omega
  · simp only [Counted, if_neg hlast]
    exact ⟨trivial, hnum, hone⟩

/-- The driver refuses it. -/
theorem MwAlive.reject (h : MwAlive n mcb s) (numReqs : Nat) (hp : MwAction.reject.Possible s) :
    ∃ s', MwAction.reject.exec numReqs s = some s' ∧ MwInv n s' := by
  obtain ⟨i, hi⟩ := hp
  have hc := h.counted
  simp only [Counted, hi] at hc
  obtain ⟨hnum, hzero, hpos, -, hmem⟩ := hc
  have hcard : ((s.inFlight.erase i).card : Int) = mcb.numRequests := by
    have hcp := Finset.card_pos.mpr ⟨i, hmem trivial⟩
    rw [Finset.card_erase_of_mem (hmem trivial)]
    omega
  have hexec : MwAction.reject.exec numReqs s = rejectRequest i s := by
    unfold MwAction.exec
    rw [hi]
  rw [hexec, rejectRequest, h.block, Option.bind_some]
  by_cases h0 : mcb.numRequests = 0
  -- nothing has been submitted
  · rw [if_pos h0]
    have hi0 : i = 0 := by
      by_contra hne
      have := hpos hne
      omega
    refine ⟨_, rfl, Or.inr ⟨rfl, ?_, ?_, ?_, Or.inr ⟨rfl, ?_⟩⟩⟩
    · show s.frees + 1 = s.allocs
      rw [h.frees, h.allocs]
    · show s.allocs ≤ 1
      rw [h.allocs]
    · show s.inFlight.erase i = ∅
      rw [(hzero hi0).2, hi0, Finset.erase_singleton]
    · show s.calls = []
      rw [h.calls, (hzero hi0).1]
      rfl
  -- the error is reported, the requests submitted go on
  · rw [if_neg h0]
    have hi0 : i ≠ 0 := by
      intro hi0
      rw [(hzero hi0).2, Finset.card_singleton] at hnum
      omega
    obtain ⟨error, hcb⟩ := multiwriteCb_spec (n := n) (s := { s with
      inFlight := s.inFlight.erase i
      mcb := some { mcb with numRequests := mcb.numRequests + 1 } }) eio rfl h.callbacks h.calls
    have hcount : mcb.numRequests + 1 - 1 = mcb.numRequests := by omega
    rw [hcb, Option.map_some]
    simp only [hcount, if_neg h0]
    refine ⟨_, rfl, Or.inl ⟨_, rfl, h.allocs, h.frees, rfl, rfl, ?_⟩⟩
    exact ⟨rfl, hcard.symm, hpos hi0⟩

/-- A request completes, after the submission has ended. -/
theorem MwAlive.complete (h : MwAlive n mcb s) (numReqs : Nat) {j : Nat} {ret : Int}
    (hp : (MwAction.complete j ret).Possible s) (hl : (MwAction.complete j ret).Late s) :
    ∃ s', (MwAction.complete j ret).exec numReqs s = some s' ∧ MwInv n s' := by
  have hj : j ∈ s.inFlight := hp
  have hcard : ((s.inFlight.erase j).card : Int) = s.inFlight.card - 1 := by
    have hcp := Finset.card_pos.mpr ⟨j, hj⟩
    rw [Finset.card_erase_of_mem hj]
    omega
  have hc := h.counted
  obtain ⟨error, hcb⟩ := multiwriteCb_spec (n := n) (s := { s with
    inFlight := s.inFlight.erase j
    pc := if s.pc = .submitting j false then .submitting j true else s.pc })
    ret h.block h.callbacks h.calls
  simp only [MwAction.exec]
  rw [hcb]
  refine ⟨_, rfl, ?_⟩
  cases hpc : s.pc with
  | returned r =>
    simp only [Counted, hpc] at hc
    obtain ⟨hr, hnum, hpos⟩ := hc
    by_cases hlast : mcb.numRequests - 1 = 0
    -- the last one
    · rw [if_pos hlast]
      refine Or.inr ⟨rfl, ?_, ?_, ?_, Or.inl ⟨?_, error, rfl⟩⟩
      · show s.frees + 1 = s.allocs
        rw [h.frees, h.allocs]
      · show s.allocs ≤ 1
        rw [h.allocs]
      · show s.inFlight.erase j = ∅
        rw [← Finset.card_eq_zero]
        omega
      · simp [hr]
    · rw [if_neg hlast]
      refine Or.inl ⟨_, rfl, h.allocs, h.frees, rfl, rfl, ?_⟩
      show r = 0 ∧ mcb.numRequests - 1 = ((s.inFlight.erase j).card : Int) ∧
        1 ≤ mcb.numRequests - 1
      refine ⟨hr, ?_, ?_⟩ <;> omega
  | loop i =>
    have htwo : 2 ≤ mcb.numRequests := by
      obtain ⟨r, hr⟩ | ⟨m, hm, htwo⟩ := hl
      · rw [hpc] at hr
        exact absurd hr (by simp)
      · rw [h.block] at hm
        rw [Option.some.inj hm]
        exact htwo
    simp only [Counted, hpc] at hc
    obtain ⟨hnum, hzero, hpos, hlt⟩ := hc
    rw [if_neg (by omega)]
    refine Or.inl ⟨_, rfl, h.allocs, h.frees, rfl, rfl, ?_⟩
    show mcb.numRequests - 1 = ((s.inFlight.erase j).card : Int) ∧ _
    refine ⟨by omega, fun h0 => ?_, fun _ => (by omega : 1 ≤ mcb.numRequests - 1), fun k hk => ?_⟩
    · rw [(hzero h0).2, Finset.card_empty] at hnum
      omega
    · exact hlt k (Finset.mem_of_mem_erase hk)
  | submitting i completed =>
    have htwo : 2 ≤ mcb.numRequests := by
      obtain ⟨r, hr⟩ | ⟨m, hm, htwo⟩ := hl
      · rw [hpc] at hr
        exact absurd hr (by simp)
      · rw [h.block] at hm
        rw [Option.some.inj hm]
        exact htwo
    simp only [Counted, hpc] at hc
    obtain ⟨hnum, hzero, hpos, hlt, hmem⟩ := hc
    have hi0 : i ≠ 0 := by
      intro hi0
      rw [(hzero hi0).2, Finset.card_singleton] at hnum
      omega
    rw [if_neg (by omega)]
    refine Or.inl ⟨_, rfl, h.allocs, h.frees, rfl, rfl, ?_⟩
    have hnum' : mcb.numRequests - 1 + 1 = ((s.inFlight.erase j).card : Int) := by omega
    have hpos' : i ≠ 0 → 1 ≤ mcb.numRequests - 1 := fun _ => by omega
    by_cases hself : MwPc.submitting i completed = .submitting j false
    -- the driver completes the request it is being given
    · obtain ⟨rfl, rfl⟩ := MwPc.submitting.inj hself
      simp only [Counted]
      refine ⟨hnum', fun h0 => absurd h0 hi0, hpos', fun k hk => ?_, fun hf =>
        absurd hf (by decide)⟩
      obtain ⟨hne, hk⟩ := Finset.mem_erase.mp hk
      obtain hk | ⟨hk, -⟩ := hlt k hk
      · exact Or.inl hk
      · exact absurd hk hne
    · simp only [Counted, if_neg hself]
      refine ⟨hnum', fun h0 => absurd h0 hi0, hpos', fun k hk => hlt k (Finset.mem_of_mem_erase hk),
        fun hf => ?_⟩
      refine Finset.mem_erase.mpr ⟨?_, hmem hf⟩
      rintro rfl
      exact hself (by rw [hf])

/-- **One action** keeps the invariant and does not use a freed control block. -/
theorem MwInv.step (h : MwInv n s) (numReqs : Nat) (a : MwAction) (hp : a.Possible s)
    (hl : a.Late s) : ∃ s', a.exec numReqs s = some s' ∧ MwInv n s' := by
  obtain ⟨mcb, h⟩ | h := h
  · cases a with
    | submit => exact h.submit numReqs hp
    | complete j ret => exact h.complete numReqs hp hl
    | accept => exact h.accept numReqs hp
    | reject => exact h.reject numReqs hp
  -- nothing is left to be done
  · have hret : ∃ ret, s.pc = .returned ret :=
      h.calls.elim (fun hc => ⟨0, hc.1⟩) fun hc => ⟨-1, hc.1⟩
    obtain ⟨ret, hret⟩ := hret
    cases a with
    | submit =>
      obtain ⟨i, hi⟩ := hp
      rw [hret] at hi
      exact absurd hi (by simp)
    | complete j ret' =>
      have hj : j ∈ s.inFlight := hp
      rw [h.inFlight] at hj
      exact absurd hj (Finset.notMem_empty j)
    | accept =>
      obtain ⟨i, completed, hi⟩ := hp
      rw [hret] at hi
      exact absurd hi (by simp)
    | reject =>
      obtain ⟨i, hi⟩ := hp
      rw [hret] at hi
      exact absurd hi (by simp)

end Step

/-- What callers of `bdrv_aio_multiwrite` rely on.  Each callback runs at most once, and has run
    once all requests are completed after a return value of 0; the control block is freed once, with
    the last completion.  After -1 nothing has run and nothing is left that could. -/
structure Mw.Settled (n : Nat) (s : Mw) : Prop where
  once : s.calls = [] ∨ ∃ error, s.calls = userCalls n error
  freed : s.mcb = none → s.frees = s.allocs ∧ s.inFlight = ∅
  held : s.mcb ≠ none → s.frees = 0 ∧ s.allocs = 1
  success : s.pc = .returned 0 → s.inFlight = ∅ →
    (∃ error, s.calls = userCalls n error) ∧ s.mcb = none
  failure : s.pc = .returned (-1) → s.calls = [] ∧ s.inFlight = ∅ ∧ s.mcb = none
  ret : ∀ ret, s.pc = .returned ret → ret = 0 ∨ ret = -1

/-- The invariant gives what is promised of the callbacks. -/
theorem MwInv.settled {n : Nat} {s : Mw} (h : MwInv n s) : s.Settled n := by
  -- the requests are still counted down, or the callback has been called
  obtain ⟨mcb, h⟩ | h := h
  · have hret : ∀ ret, s.pc = .returned ret → ret = 0 ∧ s.inFlight ≠ ∅ := by
      intro ret hpc
      have hc := h.counted
      simp only [Counted, hpc] at hc
      refine ⟨hc.1, ?_⟩
      rintro hempty
      rw [hempty, Finset.card_empty] at hc
      have := hc.2
      omega
    refine ⟨?_, fun hm => ?_, fun _ => ⟨h.frees, h.allocs⟩, fun hpc he => ?_, fun hpc => ?_,
      fun ret hpc => Or.inl (hret ret hpc).1⟩
    · rw [h.calls, reported]
      split
      · exact Or.inl rfl
      · exact Or.inr ⟨mcb.error, rfl⟩
    · rw [h.block] at hm
      exact absurd hm (by simp)
    · exact absurd he (hret 0 hpc).2
    · exact absurd (hret (-1) hpc).1 (by decide)
  · refine ⟨?_, fun _ => ⟨h.frees, h.inFlight⟩, fun hm => absurd h.block hm, fun hpc _ => ?_,
      fun hpc => ?_, fun ret hpc => ?_⟩
    · obtain ⟨-, hc⟩ | ⟨-, hc⟩ := h.calls
      · exact Or.inr hc
      · exact Or.inl hc
    · obtain ⟨-, hc⟩ | ⟨hpc', -⟩ := h.calls
      · exact ⟨hc, h.block⟩
      · rw [hpc] at hpc'
        exact absurd hpc' (by decide)
    · obtain ⟨hpc', -⟩ | ⟨-, hc⟩ := h.calls
      · rw [hpc] at hpc'
        exact absurd hpc' (by decide)
      · exact ⟨hc, h.inFlight, h.block⟩
    · obtain ⟨hpc', -⟩ | ⟨hpc', -⟩ := h.calls
      · rw [hpc] at hpc'
        exact Or.inl (MwPc.returned.inj hpc')
      · rw [hpc] at hpc'
        exact Or.inr (MwPc.returned.inj hpc')

/-- **`bdrv_aio_multiwrite`.**  `n` requests are merged to `numReqs`.  In every run in which no
    completion that comes before the function returns takes the last request off the counter, the
    freed control block is never used and the callbacks are run as callers rely on. -/
theorem bdrvAioMultiwrite_once (n numReqs : Nat) (as : List MwAction)
    (h : StepsMeet (MwAction.exec numReqs) (fun s a => a.Possible s ∧ a.Late s) (Mw.start n) as) :
    ∃ s, runFrom (MwAction.exec numReqs) (Mw.start n) as = some s ∧ s.Settled n := by
  obtain ⟨s, hrun, hinv⟩ := runFrom_invariant
    (fun s a (hs : MwInv n s) hP => hs.step numReqs a hP.1 hP.2) (MwInv.start n) h
  exact ⟨s, hrun, hinv.settled⟩

/-! ### Runs -/

/-- Two requests, the second completed first and with an error. -/
theorem bdrvAioMultiwrite_once_two :
    ∃ s, runFrom (MwAction.exec 2) (Mw.start 2)
        [.submit, .accept, .submit, .accept, .complete 1 eio, .complete 0 0] = some s ∧
      s.Settled 2 :=
  bdrvAioMultiwrite_once 2 2 _ (by decide)

/-- A driver that completes requests in `bdrv_aio_writev`.  A single request: it returns 0, nothing
    is in flight, no callback has run.  Two requests, the first still in flight: the control block
    is used after it was freed. -/
theorem bdrvAioMultiwrite_sync :
    (StepsMeet (MwAction.exec 1) (fun s a => a.Possible s) (Mw.start 1)
        [.submit, .complete 0 0, .accept] ∧
      (runFrom (MwAction.exec 1) (Mw.start 1) [.submit, .complete 0 0, .accept]).map
          (fun s => (s.pc, s.inFlight, s.calls)) = some (.returned 0, ∅, [])) ∧
    StepsMeet (MwAction.exec 2) (fun s a => a.Possible s) (Mw.start 2)
        [.submit, .accept, .submit, .complete 1 0, .accept] ∧
      (runFrom (MwAction.exec 2) (Mw.start 2)
        [.submit, .accept, .submit, .complete 1 0, .accept]).isNone = true := by
  refine ⟨⟨?_, ?_⟩, ?_, ?_⟩ <;> decide

end Qemu.Block
