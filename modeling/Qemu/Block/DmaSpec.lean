import Qemu.Block.Dma

namespace Qemu.Block

open Qemu.Lib

/-!
# What a DMA request transfers

* `cursorBytes` — the part of the scatter list before the cursor;
* `DmaInv` — the control block against the log of what was mapped and moved, and who will call
  `dma_bdrv_cb` next;
* `dmaBdrvIo_settled` — runs whose steps are good.
-/

/-! ### Bytes -/

theorem moves_append (w : Bool) (offset : Nat) (as bs : List Nat) :
    moves w offset (as ++ bs) = moves w offset as ++ moves w (offset + as.length) bs := by
  induction as generalizing offset with
  | nil => rfl
  | cons a as ih =>
    have harith : offset + (as.length + 1) = offset + 1 + as.length := by omega
    simp only [List.cons_append, moves, ih, List.length_cons, harith]

theorem length_sgBytes (sg : List ScatterGatherEntry) : (sgBytes sg).length = iovSize sg := by
  simp [sgBytes, iovSize, List.length_flatMap]

theorem sgBytes_append (as bs : List ScatterGatherEntry) :
    sgBytes (as ++ bs) = sgBytes as ++ sgBytes bs := List.flatMap_append

theorem iovSize_append (as bs : List ScatterGatherEntry) :
    iovSize (as ++ bs) = iovSize as + iovSize bs := by
  simp [iovSize]

/-- The bytes of the scatter list before the cursor. -/
def cursorBytes (sg : List ScatterGatherEntry) (index byte : Nat) : List Nat :=
  sgBytes (sg.take index) ++ ((sg[index]?.map fun e => List.range' e.base byte).getD [])

variable {e : ScatterGatherEntry} {index : Nat} {sg : List ScatterGatherEntry}

theorem cursorBytes_add (he : sg[index]? = some e) (byte len : Nat) :
    cursorBytes sg index (byte + len) =
      cursorBytes sg index byte ++ sgBytes [⟨e.base + byte, len⟩] := by
  have hrange : List.range' e.base (byte + len) =
      List.range' e.base byte ++ List.range' (e.base + byte) len := by
    rw [← List.range'_append_1]
  simp only [cursorBytes, he, Option.map_some, Option.getD_some, hrange, List.append_assoc, sgBytes,
    List.flatMap_cons, List.flatMap_nil, List.append_nil]

theorem cursorBytes_next (he : sg[index]? = some e) :
    cursorBytes sg (index + 1) 0 = cursorBytes sg index e.len := by
  have htake : sg.take (index + 1) = sg.take index ++ [e] := by
    rw [List.take_add_one, he]
    rfl
  have h0 : ((sg[index + 1]?.map fun e => List.range' e.base 0).getD []) = [] := by
    cases sg[index + 1]? <;> rfl
  rw [cursorBytes, cursorBytes, h0, htake, sgBytes_append, he]
  simp [sgBytes]

/-- What is in front of it begins the list. -/
theorem cursorBytes_prefix {byte : Nat} (hbyte : ∀ e ∈ sg[index]?, byte ≤ e.len) :
    cursorBytes sg index byte <+: sgBytes sg := by
  have hsplit : sgBytes sg = sgBytes (sg.take index) ++ sgBytes (sg.drop index) := by
    rw [← sgBytes_append, List.take_append_drop]
  rw [hsplit, cursorBytes]
  refine List.prefix_append_right_inj _ |>.mpr ?_
  cases he : sg[index]? with
  | none => exact List.nil_prefix
  | some e =>
    have hdrop : sg.drop index = e :: sg.drop (index + 1) := by
      obtain ⟨hlt, rfl⟩ := List.getElem?_eq_some_iff.mp he
      exact List.drop_eq_getElem_cons hlt
    obtain ⟨k, hk⟩ := Nat.exists_eq_add_of_le (hbyte e (by rw [he]; rfl))
    rw [hdrop]
    show List.range' e.base byte <+: List.range' e.base e.len ++ _
    rw [hk, ← List.range'_append_1, List.append_assoc]
    exact List.prefix_append _ _

theorem cursorBytes_end (sg : List ScatterGatherEntry) (byte : Nat) :
    cursorBytes sg sg.length byte = sgBytes sg := by
  simp [cursorBytes]

/-! ### The invariant -/

/-- Who will call `dma_bdrv_cb` next: nobody while it runs, the driver, the memory, or a bottom
    half. -/
inductive Pending (req : DmaRequest) (dbs : DmaAiocb) (s : Dma) : Prop
  | mapping (hpc : s.pc = .mapping) (hindex : dbs.sgCurIndex < req.sg.length)
      (hfl : s.inFlight = none)
      (hc : s.client = false) (hb : s.bh = false)
  | driver (id : Nat) (hpc : s.Outside)
      (hfl : s.inFlight = some (id, ⟨req.isWrite, dbs.sectorNum, dbs.iov, iovSize dbs.iov / 512⟩))
      (hsize : iovSize dbs.iov % 512 = 0) (hc : s.client = false) (hb : s.bh = false)
  | client (hpc : s.Outside) (hsize : iovSize dbs.iov = 0) (hfl : s.inFlight = none)
      (hc : s.client = true) (hb : s.bh = false)
  | bh (hpc : s.Outside) (hsize : iovSize dbs.iov = 0) (hfl : s.inFlight = none)
      (hc : s.client = false) (hb : s.bh = true)

/-- The control block against the logs: `done` are the bytes transferred by earlier requests to
    the driver, and the I/O vector has those from there to the cursor. -/
structure DmaCursor (req : DmaRequest) (dbs : DmaAiocb) (moved : List Move)
    (maps unmaps : List ScatterGatherEntry) (done : List Nat) : Prop where
  index : dbs.sgCurIndex ≤ req.sg.length
  byte : ∀ e ∈ req.sg[dbs.sgCurIndex]?, dbs.sgCurByte ≤ e.len
  moved : moved = moves req.isWrite (512 * req.sectorNum) done
  sector : 512 * dbs.sectorNum = 512 * req.sectorNum + done.length
  bytes : done ++ sgBytes dbs.iov = cursorBytes req.sg dbs.sgCurIndex dbs.sgCurByte
  maps : maps = unmaps ++ dbs.iov

/-- A request that goes on. -/
structure DmaLive (req : DmaRequest) (dbs : DmaAiocb) (s : Dma) : Prop where
  calls : s.calls = []
  releases : s.releases = 0
  notNull : s.result ≠ some false
  cursor : ∃ done, DmaCursor req dbs s.moved s.maps s.unmaps done
  pending : Pending req dbs s
  /-- `dma_bdrv_io` has not returned while the driver has not or the first mapping goes on. -/
  idle : s.pc = .idle → s.frames = [] ∧ s.result ≠ none
  driver : s.pc = .driver → s.frames ≠ []

/-- A request that is over: refused, or done with a status. -/
structure DmaDone (req : DmaRequest) (s : Dma) : Prop where
  releases : s.releases = 1
  pc : s.pc = .idle
  inFlight : s.inFlight = none
  client : s.client = false
  bh : s.bh = false
  maps : s.maps = s.unmaps
  outcome : (s.result = some false ∧ s.calls = []) ∨
    ∃ ret, s.result = some true ∧ s.calls = [ret] ∧
      (0 ≤ ret → s.moved = moves req.isWrite (512 * req.sectorNum) (sgBytes req.sg))
  moved : ∃ done, done <+: sgBytes req.sg ∧
    s.moved = moves req.isWrite (512 * req.sectorNum) done

/-- The transfer has ended, or it is where the actions that are possible belong. -/
inductive DmaInv (req : DmaRequest) (s : Dma) : Prop
  | entry (h : s = Dma.start req)
  | live (dbs : DmaAiocb) (hdbs : s.dbs = some dbs) (h : DmaLive req dbs s)
  | done (hdbs : s.dbs = none) (h : DmaDone req s)

/-! ### Steps -/

/-- The return from `dma_bdrv_cb` while the request goes on. -/
theorem dmaLeave_live (dbs : DmaAiocb) {s : Dma} (hdbs : s.dbs = some dbs)
    (hnotNull : s.result ≠ some false) (h : s.frames ≠ [] ∨ s.result ≠ none ∨ dbs.acb ≠ none) :
    ∃ pc result, dmaLeave s = some { s with pc := pc, result := result } ∧
      (pc = .driver ∨ pc = .idle) ∧ result ≠ some false ∧
      (pc = .idle → s.frames = [] ∧ result ≠ none) ∧ (pc = .driver → s.frames ≠ []) := by
  unfold dmaLeave
  cases hf : s.frames with
  | cons id rest =>
    refine ⟨.driver, s.result, rfl, Or.inl rfl, hnotNull, ?_, ?_⟩
    · intro hpc
      cases hpc
    · intro _ hnil
      cases hnil
  | nil =>
    cases hr : s.result with
    | some r =>
      refine ⟨.idle, some r, ?_, Or.inr rfl, hr ▸ hnotNull, fun _ => ⟨rfl, by simp⟩, ?_⟩
      · simp only
      · intro hpc
        cases hpc
    | none =>
      have hacb : dbs.acb ≠ none := by
        rcases h with h | h | h
        · exact absurd hf h
        · exact absurd hr h
        · exact h
      refine ⟨.idle, some true, ?_, Or.inr rfl, by simp, fun _ => ⟨rfl, by simp⟩, ?_⟩
      · simp only [hdbs, Option.map_some, if_neg hacb]
      · intro hpc
        cases hpc

/-- What `dma_bdrv_cb` finds when it is called again: a log with the I/O vector transferred or
    empty, and nobody else who would call it. -/
structure DmaResumed (req : DmaRequest) (dbs : DmaAiocb) (s : Dma) (done : List Nat) : Prop where
  hdbs : s.dbs = some dbs
  calls : s.calls = []
  releases : s.releases = 0
  notNull : s.result ≠ some false
  inFlight : s.inFlight = none
  client : s.client = false
  bh : s.bh = false
  index : dbs.sgCurIndex ≤ req.sg.length
  byte : ∀ e ∈ req.sg[dbs.sgCurIndex]?, dbs.sgCurByte ≤ e.len
  moved : s.moved = moves req.isWrite (512 * req.sectorNum) done
  maps : s.maps = s.unmaps ++ dbs.iov

/-- Everything before the cursor is transferred, and the next sector is the one behind it. -/
structure DmaReached (req : DmaRequest) (dbs : DmaAiocb) (done : List Nat) : Prop where
  bytes : done = cursorBytes req.sg dbs.sgCurIndex dbs.sgCurByte
  sector : 512 * (dbs.sectorNum + iovSize dbs.iov / 512) = 512 * req.sectorNum + done.length

variable {done : List Nat} {ret : Int}

/-- `dma_bdrv_cb` goes on with the list. -/
theorem dmaBdrvCb_continue {req : DmaRequest} {dbs : DmaAiocb} {s : Dma}
    (h : DmaResumed req dbs s done) (hreached : DmaReached req dbs done) (hret : 0 ≤ ret)
    (hindex : dbs.sgCurIndex < req.sg.length) :
    ∃ s', dmaBdrvCb req ret s = some s' ∧ DmaInv req s' := by
  have hgo : ¬(dbs.sgCurIndex = req.sg.length ∨ ret < 0) := by omega
  unfold dmaBdrvCb
  rw [h.hdbs, Option.bind_some, if_neg hgo]
  refine ⟨_, rfl, .live _ rfl ⟨h.calls, h.releases, h.notNull, ⟨done, ?_⟩, ?_, ?_, ?_⟩⟩
  · refine ⟨h.index, h.byte, h.moved, hreached.sector, ?_, ?_⟩
    · exact (List.append_nil done).trans hreached.bytes
    · exact h.maps.trans (List.append_nil _).symm
  · exact .mapping rfl hindex h.inFlight h.client h.bh
  · intro hpc
    cases hpc
  · intro hpc
    cases hpc

/-- `dma_bdrv_cb` ends the request, at the end of the list or with an error. -/
theorem dmaBdrvCb_finish {req : DmaRequest} {dbs : DmaAiocb} {s : Dma}
    (h : DmaResumed req dbs s done) (hbefore : done <+: sgBytes req.sg)
    (hend : dbs.sgCurIndex = req.sg.length ∨ ret < 0) (hwhole : 0 ≤ ret → done = sgBytes req.sg)
    (hframes : s.frames = []) (hresult : s.result ≠ none) :
    ∃ s', dmaBdrvCb req ret s = some s' ∧ DmaInv req s' := by
  have hr : s.result = some true := by
    cases hr : s.result with
    | none => exact absurd hr hresult
    | some b =>
      cases b with
      | false => exact absurd hr h.notNull
      | true => rfl
  unfold dmaBdrvCb
  rw [h.hdbs, Option.bind_some, if_pos hend]
  simp only [dmaLeave, dmaBdrvUnmap, hframes, hr]
  refine ⟨_, rfl, .done rfl ⟨?_, rfl, h.inFlight, h.client, h.bh, h.maps, Or.inr ⟨ret, rfl, ?_, ?_⟩,
    done, hbefore, h.moved⟩⟩
  · show s.releases + 1 = 1
    rw [h.releases]
  · show s.calls ++ [ret] = [ret]
    rw [h.calls]
    rfl
  · intro hret
    show s.moved = _
    rw [h.moved, hwhole hret]

/-- The end of the loop, with whole sectors mapped. -/
theorem dmaMapped_inv {req : DmaRequest} (dbs : DmaAiocb) {s : Dma} (hcalls : s.calls = [])
    (hreleases : s.releases = 0) (hnotNull : s.result ≠ some false)
    (hcursor : DmaCursor req dbs s.moved s.maps s.unmaps done) (hfl : s.inFlight = none)
    (hclient : s.client = false) (hbh : s.bh = false) (hsize : iovSize dbs.iov % 512 = 0)
    (hfirst : iovSize dbs.iov = 0 → s.frames ≠ [] ∨ s.result ≠ none) :
    ∃ s', dmaMapped req dbs s = some s' ∧ DmaInv req s' := by
  unfold dmaMapped
  split_ifs with h0
  · obtain ⟨pc, result, hl, hpc, hnn, hidle, hdriver⟩ :=
      dmaLeave_live dbs (s := { s with dbs := some dbs, client := true }) rfl hnotNull
        ((hfirst h0).imp id Or.inl)
    exact ⟨_, hl, .live dbs rfl ⟨hcalls, hreleases, hnn,
      ⟨done, hcursor⟩, .client hpc h0 hfl rfl hbh, hidle, hdriver⟩⟩
  · refine ⟨_, rfl, .live dbs rfl ⟨hcalls, hreleases, hnotNull,
      ⟨done, hcursor⟩, .driver s.nextAcb (Or.inl rfl) rfl hsize hclient hbh, ?_, ?_⟩⟩
    · intro hpc
      cases hpc
    · intro _ hnil
      cases hnil

theorem dmaAdvance_iov (dbs : DmaAiocb) (e : ScatterGatherEntry) (len : Nat) :
    (dmaAdvance dbs e len).iov = dbs.iov ++ [⟨e.base + dbs.sgCurByte, len⟩] := by
  unfold dmaAdvance
  dsimp only
  split_ifs <;> rfl

variable {maps unmaps : List ScatterGatherEntry} {moved : List Move}

/-- What is mapped of an entry goes behind the I/O vector, and the cursor behind it. -/
theorem DmaCursor.advance {req : DmaRequest} {dbs : DmaAiocb} {len : Nat}
    (h : DmaCursor req dbs moved maps unmaps done) (he : req.sg[dbs.sgCurIndex]? = some e)
    (hle : dbs.sgCurByte + len ≤ e.len) :
    DmaCursor req (dmaAdvance dbs e len) moved (maps ++ [⟨e.base + dbs.sgCurByte, len⟩]) unmaps
      done := by
  have hbytes : done ++ sgBytes (dbs.iov ++ [⟨e.base + dbs.sgCurByte, len⟩]) =
      cursorBytes req.sg dbs.sgCurIndex (dbs.sgCurByte + len) := by
    rw [sgBytes_append, ← List.append_assoc, h.bytes, cursorBytes_add he]
  have hmaps : maps ++ [⟨e.base + dbs.sgCurByte, len⟩] =
      unmaps ++ (dbs.iov ++ [⟨e.base + dbs.sgCurByte, len⟩]) := by
    rw [h.maps, List.append_assoc]
  unfold dmaAdvance
  dsimp only
  split_ifs with hend
  -- the entry is through
  · refine ⟨(List.getElem?_eq_some_iff.mp he).choose, fun _ _ => Nat.zero_le _, h.moved, h.sector,
      ?_, hmaps⟩
    rw [cursorBytes_next he, ← hend]
    exact hbytes
  -- part of the entry is left
  · refine ⟨h.index, fun e' he' => ?_, h.moved, h.sector, hbytes, hmaps⟩
    obtain rfl : e = e' := Option.some.inj (he.symm.trans he')
    exact hle

/-- An iteration of the loop. -/
theorem dmaMap_inv {req : DmaRequest} {dbs : DmaAiocb} {s : Dma} (hdbs : s.dbs = some dbs)
    (h : DmaLive req dbs s) {len : Option Nat} (hposs : (DmaAction.map len).Possible req s)
    (hgood : (DmaAction.map len).Good req s) :
    ∃ s', dmaMap req len dbs s = some s' ∧ DmaInv req s' := by
  obtain ⟨hpc, hlen⟩ := hposs
  obtain ⟨done, hcursor⟩ := h.cursor
  have hgood := hgood dbs hdbs
  obtain ⟨hindex, hfl, hclient, hbh⟩ : dbs.sgCurIndex < req.sg.length ∧ s.inFlight = none ∧
      s.client = false ∧ s.bh = false := by
    cases h.pending with
    | mapping _ hindex hfl hc hb => exact ⟨hindex, hfl, hc, hb⟩
    | driver id hout => rcases hout with hout | hout <;> rw [hpc] at hout <;> cases hout
    | client hout => rcases hout with hout | hout <;> rw [hpc] at hout <;> cases hout
    | bh hout => rcases hout with hout | hout <;> rw [hpc] at hout <;> cases hout
  have he := List.getElem?_eq_getElem hindex
  unfold dmaMap
  cases len with
  | none =>
    obtain ⟨hsize, hfirst⟩ := hgood trivial
    exact dmaMapped_inv dbs h.calls h.releases h.notNull hcursor hfl hclient hbh hsize hfirst
  | some len =>
    rw [he]
    generalize req.sg[dbs.sgCurIndex] = e at he
    have hcur := hcursor.advance he (hlen dbs hdbs e he len rfl)
    by_cases hmore : (dmaAdvance dbs e len).sgCurIndex < req.sg.length
    · exact ⟨_, if_pos hmore, .live _ rfl ⟨h.calls, h.releases, h.notNull, ⟨done, hcur⟩,
        .mapping hpc hmore hfl hclient hbh, h.idle, h.driver⟩⟩
    -- the last entry is through, and what is mapped is whole sectors
    · have hends : dbs.EndsLoop req (some len) := by
        unfold dmaAdvance at hmore
        dsimp only at hmore
        split_ifs at hmore with hend
        · exact ⟨e, he, hend, Nat.le_antisymm hindex (Nat.not_lt.mp hmore)⟩
        · exact absurd hindex hmore
      obtain ⟨hwhole, hfirst⟩ := hgood hends
      have hsize : iovSize (dmaAdvance dbs e len).iov = iovSize dbs.iov + (some len).getD 0 := by
        rw [dmaAdvance_iov, iovSize_append]
        rfl
      rw [← hsize] at hwhole hfirst
      obtain ⟨s', hs', hinv⟩ := dmaMapped_inv (dmaAdvance dbs e len)
        (s := { s with maps := s.maps ++ [⟨e.base + dbs.sgCurByte, len⟩] }) h.calls h.releases
        h.notNull hcur hfl hclient hbh hwhole hfirst
      exact ⟨s', (if_neg hmore).trans hs', hinv⟩

theorem sgBytes_of_iovSize {iov : List ScatterGatherEntry} (h : iovSize iov = 0) :
    sgBytes iov = [] := by
  apply List.length_eq_zero_iff.mp
  rw [length_sgBytes, h]

/-- A chunk of whole sectors transfers its I/O vector behind what is done. -/
theorem DmaCursor.transfer {req : DmaRequest} {dbs : DmaAiocb}
    (h : DmaCursor req dbs moved maps unmaps done) (hsize : iovSize dbs.iov % 512 = 0) :
    moved ++ DmaChunk.moves ⟨req.isWrite, dbs.sectorNum, dbs.iov, iovSize dbs.iov / 512⟩ =
        moves req.isWrite (512 * req.sectorNum) (done ++ sgBytes dbs.iov) ∧
      512 * (dbs.sectorNum + iovSize dbs.iov / 512) =
        512 * req.sectorNum + (done ++ sgBytes dbs.iov).length := by
  have hmul : 512 * (iovSize dbs.iov / 512) = iovSize dbs.iov := by omega
  constructor
  · rw [moves_append, h.moved, ← h.sector, DmaChunk.moves]
    simp only [hmul]
    rw [← length_sgBytes, List.take_length]
  · rw [Nat.mul_add, hmul, h.sector, List.length_append, length_sgBytes]
    omega

/-- `dma_bdrv_cb` is called again, with `done` transferred up to the cursor. -/
theorem dmaBdrvCb_inv {req : DmaRequest} {dbs : DmaAiocb} {s : Dma}
    (h : DmaResumed req dbs s done) (hbefore : done <+: sgBytes req.sg)
    (hreached : 0 ≤ ret → DmaReached req dbs done) (hframes : s.frames = [] → s.result ≠ none)
    (hgood : s.frames = [] ∨ 0 ≤ ret ∧ dbs.sgCurIndex < req.sg.length) :
    ∃ s', dmaBdrvCb req ret s = some s' ∧ DmaInv req s' := by
  by_cases hgo : 0 ≤ ret ∧ dbs.sgCurIndex < req.sg.length
  · exact dmaBdrvCb_continue h (hreached hgo.1) hgo.1 hgo.2
  · have hnil : s.frames = [] := hgood.resolve_right hgo
    have hindex := h.index
    refine dmaBdrvCb_finish h hbefore (by omega) ?_ hnil (hframes hnil)
    intro hret
    have hend : dbs.sgCurIndex = req.sg.length := by omega
    rw [(hreached hret).bytes, hend, cursorBytes_end]

/-- The first step, which is the call of `dma_bdrv_cb` by `dma_bdrv_io`. -/
theorem DmaInv.start_step {req : DmaRequest} (hgood : req.sg ≠ []) :
    ∃ s', dmaBdrvCb req 0 (Dma.start req) = some s' ∧ DmaInv req s' := by
  have hres : DmaResumed req ⟨none, req.sectorNum, 0, 0, []⟩ (Dma.start req) [] :=
    ⟨rfl, rfl, rfl, (fun hr => by cases hr), rfl, rfl, rfl, Nat.zero_le _,
      fun _ _ => Nat.zero_le _, rfl, rfl⟩
  refine dmaBdrvCb_continue hres ⟨?_, ?_⟩ (Int.le_refl _) (List.length_pos_iff.mpr hgood)
  · show [] = cursorBytes req.sg 0 0
    cases req.sg <;> rfl
  · show 512 * (req.sectorNum + 0 / 512) = 512 * req.sectorNum + 0
    omega

section

variable {req : DmaRequest} {dbs : DmaAiocb} {s : Dma}

/-- Nobody is left who could do something to a request that is over. -/
theorem DmaDone.not_possible (h : DmaDone req s) (a : DmaAction) : ¬a.Possible req s := by
  intro hposs
  cases a with
  | start => cases h.pc.symm.trans hposs
  | map => cases h.pc.symm.trans hposs.1
  | accept => cases h.pc.symm.trans hposs
  | refuse => cases h.pc.symm.trans hposs.1
  | complete =>
    have hfl := hposs.2
    rw [h.inFlight] at hfl
    cases hfl
  | notify => cases h.client.symm.trans hposs.2
  | runBh => cases h.bh.symm.trans hposs.2
  | cancel =>
    obtain ⟨-, hr, hc⟩ := hposs
    rcases h.outcome with ⟨hr', -⟩ | ⟨ret, -, hc', -⟩
    · cases hr'.symm.trans hr
    · cases hc'.symm.trans hc

/-! The one who will call `dma_bdrv_cb` can be told from the field that says so. -/

theorem Pending.of_inFlight (h : Pending req dbs s) (hfl : s.inFlight.isSome) :
    ∃ id, s.inFlight = some (id, ⟨req.isWrite, dbs.sectorNum, dbs.iov, iovSize dbs.iov / 512⟩) ∧
      iovSize dbs.iov % 512 = 0 ∧ s.client = false ∧ s.bh = false := by
  cases h with
  | mapping _ _ hnone => cases hnone ▸ hfl
  | driver id _ heq hsize hc hb => exact ⟨id, heq, hsize, hc, hb⟩
  | client _ _ hnone => cases hnone ▸ hfl
  | bh _ _ hnone => cases hnone ▸ hfl

theorem Pending.of_client (h : Pending req dbs s) (hclient : s.client = true) :
    s.Outside ∧ iovSize dbs.iov = 0 ∧ s.inFlight = none := by
  cases h with
  | mapping _ _ _ hc => cases hc.symm.trans hclient
  | driver _ _ _ _ hc => cases hc.symm.trans hclient
  | client hpc hsize hfl => exact ⟨hpc, hsize, hfl⟩
  | bh _ _ _ hc => cases hc.symm.trans hclient

theorem Pending.of_bh (h : Pending req dbs s) (hbh : s.bh = true) :
    iovSize dbs.iov = 0 ∧ s.inFlight = none ∧ s.client = false := by
  cases h with
  | mapping _ _ _ _ hb => cases hb.symm.trans hbh
  | driver _ _ _ _ _ hb => cases hb.symm.trans hbh
  | client _ _ _ _ hb => cases hb.symm.trans hbh
  | bh _ hsize hfl hc => exact ⟨hsize, hfl, hc⟩

/-- The one who will call stays the same when `bdrv_aio_readv` or `bdrv_aio_writev` returns. -/
theorem Pending.leave (h : Pending req dbs s) (hpc : s.pc = .driver) (acb : Option Nat) {s' : Dma}
    (hout : s'.Outside) (hfl : s'.inFlight = s.inFlight) (hclient : s'.client = s.client)
    (hbh : s'.bh = s.bh) : Pending req { dbs with acb := acb } s' := by
  cases h with
  | mapping hm => cases hm.symm.trans hpc
  | driver id _ heq hsize hc hb =>
    exact .driver id hout (hfl.trans heq) hsize (hclient.trans hc) (hbh.trans hb)
  | client _ hsize heq hc hb =>
    exact .client hout hsize (hfl.trans heq) (hclient.trans hc) (hbh.trans hb)
  | bh _ hsize heq hc hb =>
    exact .bh hout hsize (hfl.trans heq) (hclient.trans hc) (hbh.trans hb)

theorem Pending.ne_entry (h : Pending req dbs s) : s.pc ≠ .entry := by
  intro hentry
  cases h with
  | mapping hpc => cases hpc.symm.trans hentry
  | driver _ hpc => rcases hpc with hpc | hpc <;> cases hpc.symm.trans hentry
  | client hpc => rcases hpc with hpc | hpc <;> cases hpc.symm.trans hentry
  | bh hpc => rcases hpc with hpc | hpc <;> cases hpc.symm.trans hentry

theorem DmaLive.returned (h : DmaLive req dbs s) (hout : s.Outside) (hnil : s.frames = []) :
    s.result ≠ none := by
  rcases hout with hpc | hpc
  · exact absurd hnil (h.driver hpc)
  · exact (h.idle hpc).2

theorem DmaCursor.isPrefix (h : DmaCursor req dbs moved maps unmaps done) :
    done ++ sgBytes dbs.iov <+: sgBytes req.sg := by
  rw [h.bytes]
  exact cursorBytes_prefix h.byte

/-- The driver accepts the request, and the frame that asked for it is left. -/
theorem DmaLive.accept (hdbs : s.dbs = some dbs) (h : DmaLive req dbs s) (hpc : s.pc = .driver) :
    ∃ s', DmaAction.exec req s .accept = some s' ∧ DmaInv req s' := by
  obtain ⟨done, hcursor⟩ := h.cursor
  obtain ⟨acb, rest, hframes⟩ := List.exists_cons_of_ne_nil (h.driver hpc)
  obtain ⟨pc, result, hl, hout, hnn, hidle, hdriver⟩ :=
    dmaLeave_live { dbs with acb := some acb }
      (s := { s with dbs := some { dbs with acb := some acb }, frames := rest }) rfl h.notNull
      (Or.inr (Or.inr (Option.some_ne_none acb)))
  refine ⟨{ s with
      dbs := some { dbs with acb := some acb }, frames := rest, pc := pc, result := result },
    ?_, .live { dbs with acb := some acb } rfl ⟨h.calls, h.releases, hnn,
      ⟨done, hcursor.index, hcursor.byte, hcursor.moved, hcursor.sector, hcursor.bytes,
        hcursor.maps⟩, h.pending.leave hpc _ hout rfl rfl rfl, hidle, hdriver⟩⟩
  simp only [DmaAction.exec, hdbs, Option.bind_some, hframes]
  exact hl

/-- The driver refuses the first request, and `dma_bdrv_io` returns `NULL`. -/
theorem DmaLive.refuse (hdbs : s.dbs = some dbs) (h : DmaLive req dbs s)
    (hposs : DmaAction.refuse.Possible req s) (hgood : DmaAction.refuse.Good req s) :
    ∃ s', DmaAction.exec req s .refuse = some s' ∧ DmaInv req s' := by
  obtain ⟨done, hcursor⟩ := h.cursor
  obtain ⟨hpc, hhead⟩ := hposs
  obtain ⟨hresult, hlen⟩ := hgood
  obtain ⟨acb, hframes⟩ := List.length_eq_one_iff.mp hlen
  have hsome : s.inFlight.isSome := by
    rw [hframes, List.head?_cons] at hhead
    exact Option.isSome_iff_exists.mpr ⟨_, (Option.map_eq_some_iff.mp hhead.symm).choose_spec.1⟩
  obtain ⟨-, -, -, hc, hb⟩ := h.pending.of_inFlight hsome
  refine ⟨{ s with
      dbs := none, releases := s.releases + 1, pc := .idle, frames := [],
      result := some false, inFlight := none, unmaps := s.unmaps ++ dbs.iov },
    ?_, .done rfl ⟨?_, rfl, rfl, hc, hb, hcursor.maps, Or.inl ⟨rfl, h.calls⟩, done,
      (List.prefix_append done _).trans hcursor.isPrefix, hcursor.moved⟩⟩
  · simp only [DmaAction.exec, hdbs, Option.bind_some, hframes, dmaBdrvUnmap, dmaLeave,
      hresult, List.tail_cons, Option.map_some, if_true]
  · show s.releases + 1 = 1
    rw [h.releases]

/-- The driver completes the request: what it has mapped is transferred if that went well. -/
theorem DmaLive.complete (hdbs : s.dbs = some dbs) (h : DmaLive req dbs s)
    (hposs : (DmaAction.complete ret).Possible req s)
    (hgood : (DmaAction.complete ret).Good req s) :
    ∃ s', DmaAction.exec req s (.complete ret) = some s' ∧ DmaInv req s' := by
  obtain ⟨done, hcursor⟩ := h.cursor
  obtain ⟨hout, hsome⟩ := hposs
  obtain ⟨acb, hfl, hsize, hc, hb⟩ := h.pending.of_inFlight hsome
  simp only [DmaAction.exec, hfl, Option.bind_some]
  have hgood : s.frames = [] ∨ 0 ≤ ret ∧ dbs.sgCurIndex < req.sg.length :=
    hgood.imp_right fun hg => ⟨hg.1, hg.2 dbs hdbs⟩
  by_cases hret : ret < 0
  · have hres : DmaResumed req dbs { s with inFlight := none } done :=
      ⟨hdbs, h.calls, h.releases, h.notNull, rfl, hc, hb, hcursor.index, hcursor.byte,
        hcursor.moved, hcursor.maps⟩
    rw [if_pos hret]
    exact dmaBdrvCb_inv hres ((List.prefix_append done _).trans hcursor.isPrefix)
      (fun h0 => absurd hret (Int.not_lt.mpr h0)) (h.returned hout) hgood
  · obtain ⟨htransfer, hsector⟩ := hcursor.transfer hsize
    have hres : DmaResumed req dbs { s with
        inFlight := none
        moved := s.moved ++
          DmaChunk.moves ⟨req.isWrite, dbs.sectorNum, dbs.iov, iovSize dbs.iov / 512⟩ }
        (done ++ sgBytes dbs.iov) :=
      ⟨hdbs, h.calls, h.releases, h.notNull, rfl, hc, hb, hcursor.index, hcursor.byte,
        htransfer, hcursor.maps⟩
    rw [if_neg hret]
    exact dmaBdrvCb_inv hres hcursor.isPrefix (fun _ => ⟨hcursor.bytes, hsector⟩) (h.returned hout)
      hgood

theorem DmaLive.notify (hdbs : s.dbs = some dbs) (h : DmaLive req dbs s)
    (hclient : s.client = true) :
    ∃ s', DmaAction.exec req s .notify = some s' ∧ DmaInv req s' := by
  obtain ⟨hpc, hsize, hfl⟩ := h.pending.of_client hclient
  refine ⟨{ s with client := false, bh := true }, ?_, .live dbs hdbs ⟨h.calls, h.releases,
    h.notNull, h.cursor, .bh hpc hsize hfl rfl rfl, h.idle, h.driver⟩⟩
  simp only [DmaAction.exec, hdbs, Option.map_some]

/-- The bottom half runs; nothing was mapped when it was scheduled. -/
theorem DmaLive.runBh (hdbs : s.dbs = some dbs) (h : DmaLive req dbs s)
    (hposs : DmaAction.runBh.Possible req s) (hgood : DmaAction.runBh.Good req s) :
    ∃ s', DmaAction.exec req s .runBh = some s' ∧ DmaInv req s' := by
  obtain ⟨done, hcursor⟩ := h.cursor
  obtain ⟨hout, hbh⟩ := hposs
  obtain ⟨hsize, hfl, hc⟩ := h.pending.of_bh hbh
  have hnone : done ++ sgBytes dbs.iov = done := by
    rw [sgBytes_of_iovSize hsize, List.append_nil]
  have hres : DmaResumed req dbs { s with bh := false } done :=
    ⟨hdbs, h.calls, h.releases, h.notNull, hfl, hc, rfl, hcursor.index, hcursor.byte,
      hcursor.moved, hcursor.maps⟩
  refine dmaBdrvCb_inv hres (hnone ▸ hcursor.isPrefix) (fun _ => ⟨hnone ▸ hcursor.bytes, ?_⟩)
    (h.returned hout) (hgood.imp_right fun hg => ⟨Int.le_refl _, hg dbs hdbs⟩)
  rw [hsize, ← hcursor.sector]
  omega

/-- Every good step of a request keeps the invariant, and none is a fault. -/
theorem DmaInv.step (a : DmaAction) (h : DmaInv req s)
    (hposs : a.Possible req s) (hgood : a.Good req s) :
    ∃ s', a.exec req s = some s' ∧ DmaInv req s' := by
  cases h with
  | entry h =>
    subst h
    cases a with
    | start => exact DmaInv.start_step hgood
    | map => cases hposs.1
    | accept => cases hposs
    | refuse => cases hposs.1
    | complete => cases hposs.2
    | notify => cases hposs.2
    | runBh => cases hposs.2
    | cancel => cases hposs.2.1
  | done hdbs h => exact absurd hposs (h.not_possible a)
  | live dbs hdbs h =>
    cases a with
    | start => exact absurd hposs h.pending.ne_entry
    | map len =>
      simp only [DmaAction.exec, hdbs, Option.bind_some]
      exact dmaMap_inv hdbs h hposs hgood
    | accept => exact h.accept hdbs hposs
    | refuse => exact h.refuse hdbs hposs hgood
    | complete ret => exact h.complete hdbs hposs hgood
    | notify => exact h.notify hdbs hposs.2
    | runBh => exact h.runBh hdbs hposs hgood
    | cancel =>
      refine ⟨s, ?_, .live dbs hdbs h⟩
      simp only [DmaAction.exec, dmaAioCancel, hdbs, Option.bind_some, hgood dbs hdbs]

end

/-! ### Runs -/

/-- What the caller and the control block are promised.  A control block that is not released is
    waited for by someone; one that is released is not; the memory is transferred in order. -/
structure Dma.Settled (req : DmaRequest) (s : Dma) : Prop where
  releases : s.releases = if s.dbs = none then 1 else 0
  waiting : s.dbs ≠ none →
    s.calls = [] ∧ (s.pc ≠ .idle ∨ s.inFlight ≠ none ∨ s.client = true ∨ s.bh = true)
  released : s.dbs = none → s.inFlight = none ∧ s.client = false ∧ s.bh = false
  unmaps : s.unmaps <+: s.maps
  balanced : s.dbs = none → s.maps = s.unmaps
  calls : s.dbs = none → (s.result = some false ∧ s.calls = []) ∨
    ∃ ret, s.result = some true ∧ s.calls = [ret] ∧
      (0 ≤ ret → s.moved = moves req.isWrite (512 * req.sectorNum) (sgBytes req.sg))
  moved : ∃ done, done <+: sgBytes req.sg ∧
    s.moved = moves req.isWrite (512 * req.sectorNum) done

/-- The invariant gives what is promised of a transfer. -/
theorem DmaInv.settled {req : DmaRequest} {s : Dma} (h : DmaInv req s) : s.Settled req := by
  cases h with
  | entry h =>
    subst h
    exact ⟨rfl, fun _ => ⟨rfl, Or.inl (by simp [Dma.start])⟩, (fun hd => by cases hd),
      List.nil_prefix, (fun hd => by cases hd), (fun hd => by cases hd), [], List.nil_prefix, rfl⟩
  | live dbs hdbs h =>
    obtain ⟨done, hcursor⟩ := h.cursor
    have hne : s.dbs ≠ none := by simp [hdbs]
    refine ⟨?_, fun _ => ⟨h.calls, ?_⟩, fun hd => absurd hd hne, ?_, fun hd => absurd hd hne,
      fun hd => absurd hd hne, done, ?_, hcursor.moved⟩
    · rw [h.releases, if_neg hne]
    · cases h.pending with
      | mapping hpc => exact Or.inl (by simp [hpc])
      | driver id _ hfl => exact Or.inr (Or.inl (by simp [hfl]))
      | client _ _ _ hc => exact Or.inr (Or.inr (Or.inl hc))
      | bh _ _ _ _ hb => exact Or.inr (Or.inr (Or.inr hb))
    · rw [hcursor.maps]
      exact List.prefix_append _ _
    · exact (List.prefix_append done _).trans (hcursor.bytes ▸ cursorBytes_prefix hcursor.byte)
  | done hdbs h =>
    refine ⟨?_, fun hd => absurd hdbs hd, fun _ => ⟨h.inFlight, h.client, h.bh⟩, ?_,
      fun _ => h.maps, fun _ => h.outcome, h.moved⟩
    · rw [h.releases, if_pos hdbs]
    · exact h.maps ▸ List.prefix_rfl

/-- **DMA requests.**  In every run whose steps are good the control block is never used after it
    was released, and what the caller is promised holds at every step. -/
theorem dmaBdrvIo_settled (req : DmaRequest) (as : List DmaAction)
    (h : StepsMeet (DmaAction.exec req) (fun s a => a.Possible req s ∧ a.Good req s)
      (Dma.start req) as) :
    ∃ s, runFrom (DmaAction.exec req) (Dma.start req) as = some s ∧ s.Settled req := by
  obtain ⟨s, hrun, hinv⟩ := runFrom_invariant
    (fun _ a hs hP => DmaInv.step a hs hP.1 hP.2) (DmaInv.entry rfl) h
  exact ⟨s, hrun, hinv.settled⟩

/-- A write of three sectors, the last two from one entry of which only half can be mapped at
    first. -/
theorem dmaBdrvIo_settled_partial :
    ∃ s, runFrom (DmaAction.exec ⟨[⟨0, 512⟩, ⟨4096, 1024⟩], 8, true⟩)
        (Dma.start ⟨[⟨0, 512⟩, ⟨4096, 1024⟩], 8, true⟩)
        [.start, .map (some 512), .map (some 512), .map none, .accept, .complete 0, .map none,
          .notify, .runBh, .map (some 512), .accept, .complete 0] = some s ∧
      s.Settled ⟨[⟨0, 512⟩, ⟨4096, 1024⟩], 8, true⟩ :=
  dmaBdrvIo_settled _ _ (by decide +kernel)

/-- A list of one sector at address 0. -/
def oneSector : DmaRequest := ⟨[⟨0, 512⟩], 0, true⟩

/-- Requests that do not go well.  An empty list, a completion in `bdrv_aio_writev` and a map client
    after `NULL` was returned use the released control block; a request refused after a mapping of
    100 bytes loses them and stays; a cancelled one is not released. -/
theorem dmaBdrvIo_faults :
    (runFrom (DmaAction.exec ⟨[], 0, true⟩) (Dma.start ⟨[], 0, true⟩) [.start] = none ∧
      StepsMeet (DmaAction.exec ⟨[], 0, true⟩) (fun s a => a.Possible ⟨[], 0, true⟩ s)
        (Dma.start ⟨[], 0, true⟩) [.start]) ∧
    (runFrom (DmaAction.exec oneSector) (Dma.start oneSector)
        [.start, .map (some 512), .complete 0, .accept] = none ∧
      StepsMeet (DmaAction.exec oneSector) (fun s a => a.Possible oneSector s) (Dma.start oneSector)
        [.start, .map (some 512), .complete 0, .accept]) ∧
    (runFrom (DmaAction.exec oneSector) (Dma.start oneSector) [.start, .map none, .notify] = none ∧
      StepsMeet (DmaAction.exec oneSector) (fun s a => a.Possible oneSector s) (Dma.start oneSector)
        [.start, .map none, .notify]) ∧
    ((runFrom (DmaAction.exec oneSector) (Dma.start oneSector)
        [.start, .map (some 100), .map none, .accept, .complete 0, .map (some 412), .refuse]).map
        (fun s => (s.calls, s.releases, s.moved, s.pc)) = some ([], 0, [], .idle) ∧
      StepsMeet (DmaAction.exec oneSector) (fun s a => a.Possible oneSector s) (Dma.start oneSector)
        [.start, .map (some 100), .map none, .accept, .complete 0, .map (some 412), .refuse]) ∧
    (runFrom (DmaAction.exec oneSector) (Dma.start oneSector)
        [.start, .map (some 512), .accept, .cancel]).map
        (fun s => (s.releases, s.maps.length, s.unmaps.length)) = some (0, 1, 0) ∧
      StepsMeet (DmaAction.exec oneSector) (fun s a => a.Possible oneSector s) (Dma.start oneSector)
        [.start, .map (some 512), .accept, .cancel] := by
  refine ⟨⟨?_, ?_⟩, ⟨?_, ?_⟩, ⟨?_, ?_⟩, ⟨?_, ?_⟩, ?_, ?_⟩ <;> decide +kernel

end Qemu.Block
