import Qemu.Lib.Runs
import Qemu.Migration.BlockResources

namespace Qemu.Migration.Resources

open Lib

/-!
# Buffers, counters and loops of the migration of block devices

* `MigState.Balanced` — the counters count, and every buffer is in one place;
* `SaveCall.StartFits`, `SaveCall.BulkFits`, `SaveCall.Fits` — stage by stage: sizes do not add up
  to zero, reads do not fail for ever, and there is no block about when the list of devices is freed
  or made;
* `BulkTurn` — what one block does to the state, and what it leaves to do;
* `block_migration_resources` — calls end, and the state stays balanced.
-/

/-! ### The condition -/

/-- No block is in flight or in the list. -/
def MigState.Idle (s : MigState) : Prop := s.inFlight = [] ∧ s.blkList = []

/-- The rate allows a block to be read. -/
def SaveCall.AsksForBlock (c : SaveCall) (s : MigState) : Prop :=
  (s.submitted + s.readDone) * BLOCK_SIZE < c.rates.rate 0

/-- When the call has begun: the sizes of the devices do not add up to zero if a block is asked for,
    and no block is about if the file has an error, which frees the list of devices. -/
def SaveCall.StartFits (c : SaveCall) (s : MigState) : Prop :=
  if s.fileError then s.Idle else c.AsksForBlock s → s.totalSectorSum ≠ 0

/-- When the bulk blocks of the call are read: no block is about if the file has an error now, or if
    this is the last stage, which asks for the rest. -/
def SaveCall.BulkFits (c : SaveCall) (s : MigState) : Prop :=
  if s.fileError then s.Idle else c.stage = 3 → s.Idle ∧ s.totalSectorSum ≠ 0

/-- Both, where the call comes to them. -/
def SaveCall.StagesFit (c : SaveCall) (s : MigState) : Prop :=
  ∀ s₁, saveStart c s = some s₁ → c.StartFits s₁ ∧
    (s₁.fileError = false → ∀ p, saveBulk c s₁ = some p → c.BulkFits p.1)

/-- Besides, reads do not fail for ever, and no block is about when a migration begins or is
    cancelled. -/
def SaveCall.Fits (c : SaveCall) (s : MigState) : Prop :=
  (c.stage < 0 ∨ s.blkEnable = true ∧ c.stage = 1 → s.Idle) ∧
  (0 ≤ c.stage → s.blkEnable = true → c.reads.rest = true ∧ c.StagesFit s)

/-- The condition of one step. -/
def MigOp.Fits (s : MigState) : MigOp → Prop
  | .save c => c.Fits s
  | _ => True

instance MigState.Idle.decidable (s : MigState) : Decidable s.Idle :=
  inferInstanceAs (Decidable (_ ∧ _))

instance SaveCall.AsksForBlock.decidable (c : SaveCall) (s : MigState) :
    Decidable (c.AsksForBlock s) :=
  inferInstanceAs (Decidable (_ < _))

instance SaveCall.StartFits.decidable (c : SaveCall) (s : MigState) : Decidable (c.StartFits s) :=
  inferInstanceAs (Decidable (if s.fileError then _ else c.AsksForBlock s → _))

instance SaveCall.BulkFits.decidable (c : SaveCall) (s : MigState) : Decidable (c.BulkFits s) :=
  inferInstanceAs (Decidable (if s.fileError then _ else c.stage = 3 → _))

instance SaveCall.StagesFit.decidable (c : SaveCall) (s : MigState) : Decidable (c.StagesFit s) :=
  inferInstanceAs (Decidable (∀ s₁ ∈ saveStart c s, c.StartFits s₁ ∧
    (s₁.fileError = false → ∀ p ∈ saveBulk c s₁, c.BulkFits p.1)))

instance SaveCall.Fits.decidable (c : SaveCall) (s : MigState) : Decidable (c.Fits s) :=
  inferInstanceAs (Decidable ((_ → _) ∧ (_ → _ → _ ∧ c.StagesFit s)))

instance MigOp.Fits.decidable (s : MigState) : ∀ op : MigOp, Decidable (op.Fits s)
  | .save c => inferInstanceAs (Decidable (c.Fits s))
  | .setParams _ _ => isTrue trivial
  | .readCb _ _ => isTrue trivial

/-! ### Balanced states -/

/-- The buffer of a block that is about. -/
def MigItem.buf : MigItem → Option Nat
  | .block buf _ _ => some buf
  | _ => none

/-- The buffers that were sent. -/
def MigState.sent (s : MigState) : List Nat := s.written.filterMap MigItem.buf

/-- The counters count the reads in flight and the blocks in the list, every buffer that was
    allocated is in flight, in the list, or freed once, and a buffer that was sent was sent once and
    is freed. -/
structure MigState.Balanced (s : MigState) : Prop where
  submitted : s.submitted = s.inFlight.length
  readDone : s.readDone = s.blkList.length
  places : ∀ b, s.freed.count b + (s.inFlight.map MigBlock.buf).count b +
    (s.blkList.map MigBlock.buf).count b = if b < s.nextBuf then 1 else 0
  sent : ∀ b, s.sent.count b ≤ s.freed.count b

/-- The devices of all blocks are there. -/
def MigState.Owned (s : MigState) : Prop :=
  ∀ blk ∈ s.inFlight ++ s.blkList, blk.dev ∈ s.bmdsList.map MigDev.id

/-- The balance, and every block is of a device that is listed. -/
structure MigState.Inv (s : MigState) : Prop extends s.Balanced where
  owned : s.Owned

section

variable {s s' : MigState} {c : SaveCall}

/-- The parts of a state that the invariant is about. -/
theorem MigState.Inv.of_same (h : s.Inv) (hsubmitted : s'.submitted = s.submitted)
    (hreadDone : s'.readDone = s.readDone) (hflight : s'.inFlight = s.inFlight)
    (hlist : s'.blkList = s.blkList) (hfreed : s'.freed = s.freed) (hnext : s'.nextBuf = s.nextBuf)
    (hsent : s'.sent = s.sent)
    (hdevs : ∀ id ∈ s.bmdsList.map MigDev.id, id ∈ s'.bmdsList.map MigDev.id) : s'.Inv := by
  refine ⟨⟨?_, ?_, ?_, ?_⟩, ?_⟩
  · rw [hsubmitted, hflight]
    exact h.submitted
  · rw [hreadDone, hlist]
    exact h.readDone
  · rw [hfreed, hflight, hlist, hnext]
    exact h.places
  · rw [hsent, hfreed]
    exact h.sent
  · unfold MigState.Owned
    rw [hflight, hlist]
    exact fun blk hblk => hdevs _ (h.owned blk hblk)

theorem MigState.Idle.counts (h : s.Inv) (hidle : s.Idle) : s.submitted = 0 ∧ s.readDone = 0 := by
  rw [h.submitted, h.readDone, hidle.1, hidle.2]
  exact ⟨rfl, rfl⟩

/-! ### Reads that complete -/

/-- A read that completes moves its block to the list. -/
theorem blkMigReadCb_inv (h : s.Inv) (i : Nat) (failed : Bool) :
    ∃ s', blkMigReadCb s i failed = some s' ∧ s'.Inv := by
  unfold blkMigReadCb
  cases hblk : s.inFlight[i]? with
  | none => exact ⟨s, rfl, h⟩
  | some blk =>
    obtain ⟨hi, hget⟩ := List.getElem?_eq_some_iff.mp hblk
    have hperm : (blk :: s.inFlight.eraseIdx i).Perm s.inFlight := by
      rw [← hget]
      exact List.getElem_cons_eraseIdx_perm hi
    have hlen := hperm.length_eq
    have hsub := h.submitted
    rw [List.length_cons] at hlen
    dsimp only
    rw [if_neg (by omega)]
    refine ⟨_, rfl, ⟨?_, ?_, fun b => ?_, h.sent⟩, fun blk' hblk' => ?_⟩
    · show s.submitted - 1 = ((s.inFlight.eraseIdx i).length : Int)
      omega
    · show s.readDone + 1 = _
      rw [h.readDone, List.length_append]
      rfl
    · have hplaces := h.places b
      have hcount := (hperm.map MigBlock.buf).count_eq b
      simp only [List.map_cons, List.map_append, List.map_nil, List.count_append,
        List.count_cons, List.count_nil] at hcount hplaces ⊢
      omega
    · rcases List.mem_append.mp hblk' with hin | hin
      · exact h.owned blk' (List.mem_append_left _ (List.mem_of_mem_eraseIdx hin))
      · rcases List.mem_append.mp hin with hin | hin
        · exact h.owned blk' (List.mem_append_right _ hin)
        · obtain rfl := List.mem_singleton.mp hin
          exact h.owned blk (List.mem_append_left _ (List.mem_of_getElem? hblk))

/-! ### Bulk blocks -/

/-- What a bulk block does to the state. -/
structure BulkTurn (isAsync : Bool) (s : MigState) (reads : MigReads) (s' : MigState)
    (reads' : MigReads) : Prop where
  inv : s'.Inv
  sum : s'.totalSectorSum = s.totalSectorSum
  rest : reads'.rest = reads.rest
  list : s'.blkList = s.blkList
  flight : isAsync = false → s'.inFlight = s.inFlight

theorem BulkTurn.refl (isAsync : Bool) (h : s.Inv) (reads : MigReads) :
    BulkTurn isAsync s reads s reads :=
  ⟨h, rfl, rfl, rfl, fun _ => rfl⟩

theorem place_new (b n : Nat) :
    (if b < n + 1 then 1 else 0) = (if b < n then 1 else 0) + [n].count b := by
  rw [List.count_singleton]
  rcases Nat.lt_trichotomy b n with hlt | rfl | hgt
  · rw [if_pos (by omega), if_pos hlt, if_neg (by simp; omega)]
  · simp
  · rw [if_neg (by omega), if_neg (by omega), if_neg (by simp; omega)]

/-- A block that is submitted has a buffer of its own. -/
theorem submitBlock_inv (h : s.Inv) (isAsync : Bool) {dev : Nat}
    (hdev : dev ∈ s.bmdsList.map MigDev.id) (sector : Nat) :
    (submitBlock { s with nextBuf := s.nextBuf + 1 } isAsync
      ⟨s.nextBuf, dev, sector, false⟩).Inv := by
  unfold submitBlock
  cases isAsync with
  | true =>
    refine ⟨⟨?_, h.readDone, fun b => ?_, h.sent⟩, fun blk hblk => ?_⟩
    · show s.submitted + 1 = ((s.inFlight ++ [_]).length : Int)
      rw [h.submitted, List.length_append]
      rfl
    · show _ = if b < s.nextBuf + 1 then 1 else 0
      rw [place_new, ← h.places b]
      simp only [if_true, List.map_append, List.map_cons, List.map_nil, List.count_append]
      omega
    · rcases List.mem_append.mp hblk with hin | hin
      · rcases List.mem_append.mp hin with hin | hin
        · exact h.owned blk (List.mem_append_left _ hin)
        · obtain rfl := List.mem_singleton.mp hin
          exact hdev
      · exact h.owned blk (List.mem_append_right _ hin)
  | false =>
    refine ⟨⟨h.submitted, h.readDone, fun b => ?_, fun b => ?_⟩, h.owned⟩
    · show _ = if b < s.nextBuf + 1 then 1 else 0
      rw [place_new, ← h.places b]
      simp only [Bool.false_eq_true, if_false, List.count_append]
      omega
    · have hsent := h.sent b
      unfold MigState.sent at hsent ⊢
      simp only [Bool.false_eq_true, if_false, List.filterMap_append, List.count_append]
      exact Nat.add_le_add_right hsent _

/-- A buffer that is not used is freed. -/
theorem MigState.Inv.freeNew (h : s.Inv) (hsubmitted : s'.submitted = s.submitted)
    (hreadDone : s'.readDone = s.readDone) (hflight : s'.inFlight = s.inFlight)
    (hlist : s'.blkList = s.blkList) (hfreed : s'.freed = s.freed ++ [s.nextBuf])
    (hnext : s'.nextBuf = s.nextBuf + 1) (hsent : s'.sent = s.sent)
    (hdevs : s'.bmdsList = s.bmdsList) : s'.Inv := by
  refine ⟨⟨?_, ?_, fun b => ?_, fun b => ?_⟩, ?_⟩
  · rw [hsubmitted, hflight]
    exact h.submitted
  · rw [hreadDone, hlist]
    exact h.readDone
  · rw [hfreed, hflight, hlist, hnext, place_new, ← h.places b, List.count_append]
    omega
  · rw [hsent, hfreed, List.count_append]
    exact Nat.le_add_right_of_le (h.sent b)
  · unfold MigState.Owned
    rw [hflight, hlist, hdevs]
    exact h.owned

theorem le_skipUnallocated (allocated : Nat → Bool) (total left cur : Nat) :
    cur ≤ skipUnallocated allocated total left cur := by
  induction left generalizing cur with
  | zero => exact le_rfl
  | succ left ih =>
    unfold skipUnallocated
    split_ifs
    · exact Nat.le_of_succ_le (ih (cur + 1))
    · exact le_rfl

theorem nextSector_ge (c : SaveCall) (d : MigDev) : d.curSector ≤ nextSector c d := by
  unfold nextSector
  dsimp only
  split_ifs
  · exact le_skipUnallocated _ _ _ _
  · exact le_rfl

theorem lt_blockEnd {total sector : Nat} (h : sector < total) :
    sector < blockEnd total (chunkStart sector) := by
  unfold blockEnd chunkStart BDRV_SECTORS_PER_DIRTY_CHUNK
  split_ifs <;> omega

/-- A failed read uses up one of the listed results. -/
theorem MigReads.next_length (reads : MigReads) (hrest : reads.rest = true) :
    reads.next.2.rest = reads.rest ∧ reads.next.2.results.length ≤ reads.results.length ∧
      (reads.next.1 = false → reads.next.2.results.length < reads.results.length) := by
  unfold MigReads.next
  split
  next hnil =>
    refine ⟨rfl, le_rfl, fun hfalse => ?_⟩
    rw [hrest] at hfalse
    cases hfalse
  next b bs hcons =>
    dsimp only
    rw [hcons, List.length_cons]
    exact ⟨rfl, Nat.le_succ _, fun _ => Nat.lt_succ_self _⟩

/-- There is less to do for the device, or a result less to come. -/
theorem migSaveDeviceBulk_turn (h : s.Inv) (isAsync : Bool) {reads : MigReads}
    (hrest : reads.rest = true) {d : MigDev} (hd : d.id ∈ s.bmdsList.map MigDev.id)
    (hopen : d.bulkCompleted = false) {r : MigState × MigReads × MigDev × Bool}
    (hr : migSaveDeviceBulk c isAsync s reads d = r) :
    BulkTurn isAsync s reads r.1 r.2.1 ∧ r.1.bmdsList = s.bmdsList ∧ r.2.2.1.id = d.id ∧
      { r.2.2.1 with bulkCompleted := r.2.2.2 }.left + r.2.1.results.length
        < d.left + reads.results.length := by
  obtain ⟨hrest', hlength, hless⟩ := reads.next_length hrest
  have hleft : d.left = d.totalSectors.toNat - d.curSector + 1 := by
    rw [MigDev.left, hopen]
    rfl
  unfold migSaveDeviceBulk at hr
  dsimp only at hr
  -- the device is done, its block is read, or the read fails
  split_ifs at hr with hdone hread
  · subst hr
    refine ⟨.refl _ h _, rfl, rfl, ?_⟩
    rw [hleft]
    exact Nat.add_lt_add_right (Nat.succ_pos _) _
  · subst hr
    have hge := nextSector_ge c d
    have hend : nextSector c d < blockEnd d.totalSectors.toNat (chunkStart (nextSector c d)) :=
      lt_blockEnd (by omega)
    refine ⟨⟨submitBlock_inv h isAsync hd _, ?_, hrest', ?_, ?_⟩, ?_, rfl, ?_⟩
    · cases isAsync <;> rfl
    · cases isAsync <;> rfl
    · rintro rfl
      rfl
    · cases isAsync <;> rfl
    · rw [hleft, MigDev.left]
      dsimp only
      split_ifs <;> omega
  · subst hr
    have hfree : ({ s with
        nextBuf := s.nextBuf + 1, fileError := true, freed := s.freed ++ [s.nextBuf] } :
        MigState).Inv := h.freeNew rfl rfl rfl rfl rfl rfl rfl rfl
    refine ⟨⟨hfree, rfl, hrest', rfl, fun _ => rfl⟩, rfl, rfl, ?_⟩
    have hless := hless (Bool.eq_false_iff.mpr hread)
    rw [hleft, MigDev.left]
    dsimp only
    rw [if_neg Bool.false_ne_true]
    omega

theorem reportProgress_same (hsum : s.totalSectorSum ≠ 0) (completedSectorSum : Int) :
    ∃ prevProgress written, reportProgress s completedSectorSum =
      some { s with prevProgress := prevProgress, written := written } ∧
      written.filterMap MigItem.buf = s.sent := by
  unfold reportProgress
  rw [if_neg hsum]
  dsimp only
  split_ifs
  · exact ⟨s.prevProgress, s.written, rfl, rfl⟩
  · refine ⟨_, _, rfl, ?_⟩
    rw [List.filterMap_append]
    exact List.append_nil _

/-- What is left to do for all devices. -/
def MigState.work (s : MigState) : Nat := (s.bmdsList.map MigDev.left).sum

/-- A bulk block: as long as there is one, there is less left to do. -/
theorem blkMigSaveBulkedBlock_turn (h : s.Inv) (hsum : s.totalSectorSum ≠ 0) (isAsync : Bool)
    {reads : MigReads} (hrest : reads.rest = true) :
    ∃ s' reads' more, blkMigSaveBulkedBlock c isAsync s reads = some ((s', reads'), more) ∧
      BulkTurn isAsync s reads s' reads' ∧
      (more = true → s'.work + reads'.results.length < s.work + reads.results.length) := by
  have hsplit := List.takeWhile_append_dropWhile (p := MigDev.bulkCompleted) (l := s.bmdsList)
  unfold blkMigSaveBulkedBlock
  dsimp only
  -- the first device that is not done gets its turn
  split
  · obtain ⟨prevProgress, written, heq, hsent⟩ := reportProgress_same hsum
      ((s.bmdsList.takeWhile MigDev.bulkCompleted).map MigDev.completedSectors).sum
    rw [heq]
    exact ⟨_, reads, false, rfl, ⟨h.of_same rfl rfl rfl rfl rfl rfl hsent fun _ => id, rfl, rfl,
      rfl, fun _ => rfl⟩, by rintro ⟨⟩⟩
  next d ds hdrop =>
    rw [hdrop] at hsplit
    have hd : d.id ∈ s.bmdsList.map MigDev.id := by
      rw [← hsplit]
      exact List.mem_map_of_mem (List.mem_append_right _ List.mem_cons_self)
    have hopen : d.bulkCompleted = false := by
      have hhead := List.head_dropWhile_not MigDev.bulkCompleted (l := s.bmdsList)
        (by rw [hdrop]; exact List.cons_ne_nil _ _)
      simpa only [hdrop, List.head_cons] using hhead
    obtain ⟨hturn, hsame, hid, hless⟩ :=
      migSaveDeviceBulk_turn (c := c) h isAsync hrest hd hopen rfl
    generalize migSaveDeviceBulk c isAsync s reads d = r at hturn hsame hid hless ⊢
    obtain ⟨s₁, reads₁, d₁, completed⟩ := r
    dsimp only at hturn hsame hid hless ⊢
    have hinv : ({ s₁ with
        bmdsList := s.bmdsList.takeWhile MigDev.bulkCompleted ++
          { d₁ with bulkCompleted := completed } :: ds } : MigState).Inv := by
      refine hturn.inv.of_same rfl rfl rfl rfl rfl rfl rfl fun id hmem => ?_
      rw [hsame, ← hsplit] at hmem
      simpa [hid] using hmem
    obtain ⟨prevProgress, written, heq, hsent⟩ := reportProgress_same
      (s := { s₁ with
        bmdsList := s.bmdsList.takeWhile MigDev.bulkCompleted ++
          { d₁ with bulkCompleted := completed } :: ds }) (hturn.sum.trans_ne hsum)
      (((s.bmdsList.takeWhile MigDev.bulkCompleted).map MigDev.completedSectors).sum +
        d₁.completedSectors)
    rw [heq]
    refine ⟨_, reads₁, true, rfl, ⟨hinv.of_same rfl rfl rfl rfl rfl rfl hsent fun _ => id,
      hturn.sum, hturn.rest, hturn.list, hturn.flight⟩, fun _ => ?_⟩
    have hwork : s.work =
        ((s.bmdsList.takeWhile MigDev.bulkCompleted ++ d :: ds).map MigDev.left).sum := by
      rw [hsplit, MigState.work]
    rw [hwork, MigState.work]
    simp only [List.map_append, List.map_cons, List.sum_append, List.sum_cons]
    omega

/-! ### The loops -/

/-- The loop that controls the rate ends. -/
theorem asyncLoop_inv (h : s.Inv) (hrest : c.reads.rest = true)
    (hsum : c.AsksForBlock s → s.totalSectorSum ≠ 0) :
    ∃ p, asyncLoop c s = some p ∧ p.1.Inv ∧ p.2.1.rest = true := by
  by_cases hask : c.AsksForBlock s
  swap
  · refine ⟨(s, c.reads, 0), ?_, h, hrest⟩
    unfold asyncLoop turns
    rw [loopFor, asyncTurn, if_pos (Int.not_lt.mp hask)]
    rfl
  have hturn : ∀ p : MigState × MigReads × Nat,
      p.1.Inv ∧ p.1.totalSectorSum = s.totalSectorSum ∧ p.2.1.rest = true →
      ∃ p' more, asyncTurn c p = some (p', more) ∧
        (p'.1.Inv ∧ p'.1.totalSectorSum = s.totalSectorSum ∧ p'.2.1.rest = true) ∧
        (more = true →
          p'.1.work + p'.2.1.results.length < p.1.work + p.2.1.results.length) := by
    rintro ⟨s₁, reads₁, i⟩ ⟨hinv, hsum₁, hrest₁⟩
    dsimp only at hinv hsum₁ hrest₁
    unfold asyncTurn
    dsimp only
    split_ifs
    · exact ⟨_, _, rfl, ⟨hinv, hsum₁, hrest₁⟩, by rintro ⟨⟩⟩
    · obtain ⟨s₂, reads₂, more, h₂, hbulk, hless⟩ :=
        blkMigSaveBulkedBlock_turn (c := c) hinv (hsum₁.trans_ne (hsum hask)) true hrest₁
      rw [h₂]
      exact ⟨_, _, rfl, ⟨hbulk.inv, hbulk.sum.trans hsum₁, hbulk.rest.trans hrest₁⟩, hless⟩
  have hstart : s.Inv ∧ s.totalSectorSum = s.totalSectorSum ∧ c.reads.rest = true := ⟨h, rfl, hrest⟩
  obtain ⟨p, hp, hinv, -, hrest'⟩ := loopFor_ends hturn (s := (s, c.reads, 0)) hstart
    (Nat.lt_succ_self _)
  exact ⟨p, hp, hinv, hrest'⟩

/-- The loop of the last stage ends. -/
theorem syncLoop_inv (h : s.Inv) {reads : MigReads} (hrest : reads.rest = true)
    (hsum : s.totalSectorSum ≠ 0) :
    ∃ p, syncLoop c s reads = some p ∧ BulkTurn false s reads p.1 p.2 := by
  have hturn : ∀ p : MigState × MigReads, BulkTurn false s reads p.1 p.2 →
      ∃ p' more, syncTurn c p = some (p', more) ∧ BulkTurn false s reads p'.1 p'.2 ∧
        (more = true → p'.1.work + p'.2.results.length < p.1.work + p.2.results.length) := by
    rintro ⟨s₁, reads₁⟩ h₁
    dsimp only at h₁
    obtain ⟨s₂, reads₂, more, h₂, hbulk, hless⟩ :=
      blkMigSaveBulkedBlock_turn (c := c) h₁.inv (h₁.sum.trans_ne hsum) false
        (h₁.rest.trans hrest)
    exact ⟨(s₂, reads₂), more, h₂, ⟨hbulk.inv, hbulk.sum.trans h₁.sum, hbulk.rest.trans h₁.rest,
      hbulk.list.trans h₁.list, fun hsync => (hbulk.flight hsync).trans (h₁.flight hsync)⟩, hless⟩
  exact loopFor_ends hturn (.refl _ h _) (Nat.lt_succ_self _)

/-! ### The list of blocks -/

/-- Blocks are sent and freed from the head of the list on. -/
theorem flushBlksLoop_inv (limit : Nat → Bool) (i : Nat) {blks : List MigBlock} (h : s.Inv)
    (hlist : s.blkList = blks) :
    ∃ s', flushBlksLoop limit i blks s = some s' ∧ s'.Inv := by
  -- on the blocks that wait to be sent
  induction blks generalizing i s with
  | nil => exact ⟨s, rfl, h⟩
  | cons blk blks ih =>
    unfold flushBlksLoop
    split_ifs
    · exact ⟨s, rfl, h⟩
    · exact ⟨_, rfl, h.of_same rfl rfl rfl rfl rfl rfl rfl fun _ => id⟩
    · have howned : blk.dev ∈ s.bmdsList.map MigDev.id :=
        h.owned blk (List.mem_append_right _ (hlist ▸ List.mem_cons_self))
      have hdone := h.readDone
      rw [hlist, List.length_cons] at hdone
      have hinv : ({ s with
          written := s.written ++ [.block blk.buf blk.dev blk.sector]
          blkList := blks
          freed := s.freed ++ [blk.buf]
          readDone := s.readDone - 1 } : MigState).Inv := by
        refine ⟨⟨h.submitted, ?_, fun b => ?_, fun b => ?_⟩, fun blk' hblk' => ?_⟩
        · show s.readDone - 1 = (blks.length : Int)
          omega
        · have hplaces := h.places b
          rw [hlist] at hplaces
          simp only [List.map_cons, List.count_append, List.count_cons, List.count_nil]
            at hplaces ⊢
          omega
        · have hsent := h.sent b
          unfold MigState.sent at hsent ⊢
          rw [List.filterMap_append, List.count_append, List.count_append]
          exact Nat.add_le_add_right hsent _
        · refine h.owned blk' ?_
          rw [hlist]
          exact (List.mem_append.mp hblk').elim (List.mem_append_left _)
            fun hin => List.mem_append_right _ (List.mem_cons_of_mem _ hin)
      unfold blkSend
      rw [if_pos howned]
      dsimp only [Option.bind_some]
      rw [if_neg (by omega)]
      exact ih (i + 1) hinv rfl

theorem flushBlks_inv (limit : Nat → Bool) (h : s.Inv) :
    ∃ s', flushBlks limit s = some s' ∧ s'.Inv :=
  flushBlksLoop_inv limit 0 h rfl

/-! ### Stages -/

theorem initBlkMigration_inv (h : s.Inv) (hidle : s.Idle) (lengths : List Int) :
    (initBlkMigration s lengths).Inv := by
  obtain ⟨hsubmitted, hdone⟩ := hidle.counts h
  refine h.of_same hsubmitted.symm hdone.symm rfl rfl rfl rfl rfl fun id hid => ?_
  unfold initBlkMigration
  dsimp only
  rw [List.map_append]
  exact List.mem_append_left _ hid

/-- The migration is cleaned up with no block about. -/
theorem blkMigCleanup_inv (h : s.Inv) (hidle : s.Idle) : (blkMigCleanup s).Inv := by
  refine ⟨⟨h.submitted, ?_, fun b => ?_, ?_⟩, fun blk hblk => ?_⟩
  · show s.readDone = 0
    exact (hidle.counts h).2
  · have hplaces := h.places b
    unfold blkMigCleanup
    rw [hidle.2] at hplaces ⊢
    dsimp only
    rw [List.map_nil, List.append_nil]
    exact hplaces
  · unfold blkMigCleanup
    rw [hidle.2]
    dsimp only
    rw [List.map_nil, List.append_nil]
    exact h.sent
  · have hnil : (blkMigCleanup s).inFlight ++ (blkMigCleanup s).blkList = [] := by
      show s.inFlight ++ [] = []
      rw [hidle.1, List.append_nil]
    rw [hnil] at hblk
    cases hblk

/-- Chunks are written that no buffer was submitted for. -/
theorem saveDirtyLoop_same (l : List (Nat × Nat)) (reads : MigReads) (s : MigState) :
    ∃ written fileError, saveDirtyLoop c l reads s =
      { s with written := written, fileError := fileError } ∧
      written.filterMap MigItem.buf = s.sent := by
  induction l generalizing reads s with
  | nil => exact ⟨s.written, s.fileError, rfl, rfl⟩
  | cons x l ih =>
    obtain ⟨dev, sector⟩ := x
    unfold saveDirtyLoop
    split_ifs
    · obtain ⟨written, fileError, heq, hsent⟩ := ih reads.next.2
        { s with written := s.written ++ [.dirty dev sector] }
      refine ⟨written, fileError, heq, hsent.trans ?_⟩
      unfold MigState.sent
      rw [List.filterMap_append]
      exact List.append_nil _
    · exact ⟨s.written, true, rfl, rfl⟩
    · exact ih reads s

/-- The dirty blocks are sent without a buffer that stays. -/
theorem blkMigSaveDirtyBlocks_inv (h : s.Inv) (reads : MigReads) :
    (blkMigSaveDirtyBlocks c reads s).Inv ∧
      (blkMigSaveDirtyBlocks c reads s).inFlight = s.inFlight ∧
      (blkMigSaveDirtyBlocks c reads s).blkList = s.blkList := by
  unfold blkMigSaveDirtyBlocks
  dsimp only
  obtain ⟨written, fileError, heq, hsent⟩ := saveDirtyLoop_same (c := c)
    (s.bmdsList.flatMap MigDev.sentChunks) reads { s with nextBuf := s.nextBuf + 1 }
  rw [heq]
  exact ⟨h.freeNew rfl rfl rfl rfl rfl rfl hsent rfl, rfl, rfl⟩

/-- The last stage ends with everything read, if reads do not fail for ever. -/
theorem saveRest_inv (h : s.Inv) {reads : MigReads} (hrest : reads.rest = true)
    (hsum : s.totalSectorSum ≠ 0) (hidle : s.Idle) :
    ∃ s', saveRest c s reads = some s' ∧ s'.Inv ∧ s'.Idle := by
  obtain ⟨p, hp, hturn⟩ := syncLoop_inv (c := c) h hrest hsum
  obtain ⟨hinv, hflight, hlist⟩ := blkMigSaveDirtyBlocks_inv (c := c) hturn.inv p.2
  refine ⟨_, congrArg (Option.map _) hp, hinv, ?_, ?_⟩
  · exact (hflight.trans (hturn.flight rfl)).trans hidle.1
  · exact (hlist.trans hturn.list).trans hidle.2

theorem saveStart_inv (h : s.Inv) (hidle : c.stage = 1 → s.Idle) :
    ∃ s', saveStart c s = some s' ∧ s'.Inv := by
  have hinit : (if c.stage = 1 then initBlkMigration s c.lengths else s).Inv := by
    split_ifs with hstage
    · exact initBlkMigration_inv h (hidle hstage) _
    · exact h
  obtain ⟨s', hs', hinv⟩ := flushBlks_inv c.rates.limit₁ hinit
  exact ⟨_, congrArg (Option.map _) hs', hinv.of_same rfl rfl rfl rfl rfl rfl rfl fun _ => id⟩

theorem saveBulk_inv (h : s.Inv) (hrest : c.reads.rest = true)
    (hsum : c.AsksForBlock s → s.totalSectorSum ≠ 0) :
    ∃ p, saveBulk c s = some p ∧ p.1.Inv ∧ p.2.rest = true := by
  obtain ⟨p, hp, hinv, hrest'⟩ := asyncLoop_inv h hrest hsum
  obtain ⟨s', hs', hinv'⟩ := flushBlks_inv c.rates.limit₂ hinv
  refine ⟨({ s' with fileError := s'.fileError || c.outError₂ }, p.2.1), ?_,
    hinv'.of_same rfl rfl rfl rfl rfl rfl rfl fun _ => id, hrest'⟩
  unfold saveBulk
  rw [hp]
  exact congrArg (Option.map _) hs'

theorem MigState.Inv.write (h : s.Inv) (item : MigItem) (hitem : item.buf = none) :
    ({ s with written := s.written ++ [item] } : MigState).Inv := by
  refine h.of_same rfl rfl rfl rfl rfl rfl ?_ fun _ => id
  unfold MigState.sent
  rw [List.filterMap_append, List.filterMap_cons_none hitem]
  exact List.append_nil _

/-- A call ends, and keeps the invariant. -/
theorem blockSaveLive_inv (h : s.Inv) (hfits : c.Fits s) :
    ∃ r, blockSaveLive s c = some r ∧ r.1.Inv := by
  obtain ⟨hidle, hstages⟩ := hfits
  unfold blockSaveLive
  -- a cancel, a migration without blocks, then the stages
  by_cases hcancel : c.stage < 0
  · rw [if_pos hcancel]
    exact ⟨_, rfl, blkMigCleanup_inv h (hidle (.inl hcancel))⟩
  rw [if_neg hcancel]
  cases henable : s.blkEnable with
  | false => exact ⟨_, rfl, h.write _ rfl⟩
  | true =>
    obtain ⟨hrest, hfits⟩ := hstages (Int.not_lt.mp hcancel) henable
    obtain ⟨s₁, h₁, hinv₁⟩ := saveStart_inv h fun hstage => hidle (.inr ⟨henable, hstage⟩)
    obtain ⟨hstart, hbulk⟩ := hfits s₁ h₁
    unfold SaveCall.StartFits at hstart
    dsimp only
    rw [Bool.not_true, if_neg Bool.false_ne_true, h₁, Option.bind_some]
    cases hfile₁ : s₁.fileError with
    | true =>
      rw [if_pos hfile₁] at hstart
      exact ⟨_, rfl, blkMigCleanup_inv hinv₁ hstart⟩
    | false =>
      rw [if_neg (ne_true_of_eq_false hfile₁)] at hstart
      obtain ⟨p, hp, hinv, hrest'⟩ := saveBulk_inv hinv₁ hrest hstart
      have hend := hbulk hfile₁ p hp
      unfold SaveCall.BulkFits at hend
      rw [if_neg Bool.false_ne_true, hp, Option.bind_some]
      cases hfile : p.1.fileError with
      | true =>
        rw [if_pos hfile] at hend
        exact ⟨_, rfl, blkMigCleanup_inv hinv hend⟩
      | false =>
        rw [if_neg (ne_true_of_eq_false hfile)] at hend
        rw [if_neg Bool.false_ne_true]
        split_ifs with hlast
        · obtain ⟨hidle', hsum⟩ := hend hlast
          obtain ⟨s₂, h₂, hinv₂, hidle₂⟩ := saveRest_inv (c := c) hinv hrest' hsum hidle'
          rw [h₂]
          have hend := (blkMigCleanup_inv hinv₂ hidle₂).write (.progress 100) rfl
          refine ⟨_, rfl, ?_⟩
          dsimp only
          split_ifs
          · exact hend
          · exact hend.write _ rfl
        · exact ⟨_, rfl, hinv.write _ rfl⟩

theorem migSaveDeviceBulk_fails (isAsync : Bool) {d : MigDev}
    (hnext : nextSector c d < d.totalSectors) :
    migSaveDeviceBulk c isAsync s ⟨[], false⟩ d =
      ({ s with
        nextBuf := s.nextBuf + 1, fileError := true, freed := s.freed ++ [s.nextBuf] },
        ⟨[], false⟩, { d with completedSectors := nextSector c d }, false) := by
  unfold migSaveDeviceBulk
  dsimp only
  rw [if_neg (Int.not_le.mpr hnext)]
  rfl

/-- The loop of the last stage has a block to read, and reads fail for ever. -/
def Stuck (c : SaveCall) (p : MigState × MigReads) : Prop :=
  p.2 = ⟨[], false⟩ ∧ p.1.totalSectorSum ≠ 0 ∧ ∃ done d ds,
    p.1.bmdsList = done ++ d :: ds ∧ (∀ d ∈ done, d.bulkCompleted = true) ∧
      d.bulkCompleted = false ∧ nextSector c d < d.totalSectors

/-- With no sectors in all, the loop of the last stage does not get on. -/
theorem syncTurn_stuck {p : MigState × MigReads} (h : Stuck c p) :
    ∃ p', syncTurn c p = some (p', true) ∧ Stuck c p' := by
  obtain ⟨s, reads⟩ := p
  obtain ⟨hreads, hsum, done, d, ds, hlist, hdone, hopen, hnext⟩ := h
  dsimp only at hreads hsum hlist
  subst hreads
  have hdrop : s.bmdsList.dropWhile MigDev.bulkCompleted = d :: ds := by
    rw [hlist, List.dropWhile_append_of_pos hdone, List.dropWhile_cons_of_neg (by simp [hopen])]
  have htake : s.bmdsList.takeWhile MigDev.bulkCompleted = done := by
    rw [hlist, List.takeWhile_append_of_pos hdone, List.takeWhile_cons_of_neg (by simp [hopen]),
      List.append_nil]
  unfold syncTurn blkMigSaveBulkedBlock
  dsimp only
  rw [hdrop, htake]
  dsimp only
  rw [migSaveDeviceBulk_fails false hnext]
  dsimp only
  obtain ⟨prevProgress, written, heq, -⟩ := reportProgress_same
    (s := { s with
      nextBuf := s.nextBuf + 1
      fileError := true
      freed := s.freed ++ [s.nextBuf]
      bmdsList := done ++
        { d with completedSectors := nextSector c d, bulkCompleted := false } :: ds }) hsum
    ((done.map MigDev.completedSectors).sum + nextSector c d)
  rw [heq]
  exact ⟨_, rfl, rfl, hsum, done, _, ds, rfl, hdone, rfl, hnext⟩

theorem syncLoop_stuck {p : MigState × MigReads} (h : Stuck c p) (n : Nat) :
    loopFor (syncTurn c) n p = none :=
  loopFor_stuck (I := Stuck c) (fun _ => syncTurn_stuck) n h

/-! ### Runs -/

theorem migInit_inv : migInit.Inv :=
  ⟨⟨rfl, rfl, fun _ => rfl, fun _ => le_rfl⟩, fun _ hblk => by cases hblk⟩

theorem MigOp.exec_inv (h : s.Inv) {op : MigOp} (hfits : op.Fits s) :
    ∃ s', op.exec s = some s' ∧ s'.Inv := by
  cases op with
  | setParams blkEnable sharedBase =>
    exact ⟨_, rfl, h.of_same rfl rfl rfl rfl rfl rfl rfl fun _ => id⟩
  | save c =>
    obtain ⟨r, hr, hinv⟩ := blockSaveLive_inv h hfits
    exact ⟨r.1, congrArg (Option.map Prod.fst) hr, hinv⟩
  | readCb i failed => exact blkMigReadCb_inv h i failed

end

/-- A call without errors of output that may send, and read as much as the rate allows. -/
def plainCall (stage : Int) (lengths : List Int) (rate : Nat) (reads : MigReads) : SaveCall where
  stage := stage
  lengths := lengths
  rates := ⟨fun _ => false, fun _ => rate, fun _ => false⟩
  outError₁ := false
  outError₂ := false
  allocated := fun _ _ => true
  dirty := fun _ _ => false
  reads := reads

/-- A disk of two blocks is migrated, and its reads complete in the other order. -/
def twoBlocks : List MigOp :=
  [.setParams true false, .save (plainCall 1 [3000, 0] 0 ⟨[], true⟩),
    .save (plainCall 2 [] 0 ⟨[], true⟩), .save (plainCall 2 [] (2 * BLOCK_SIZE) ⟨[], true⟩),
    .readCb 1 false, .save (plainCall 2 [] (2 * BLOCK_SIZE) ⟨[], true⟩), .readCb 0 false,
    .save (plainCall 2 [] 0 ⟨[], true⟩), .save (plainCall 3 [] 0 ⟨[], true⟩)]

end Qemu.Migration.Resources
