import Qemu.Hw.OnedramShm

namespace Qemu.Hw

open Qemu.Lib

/-!
# Messages out of the outbound ring of the OneDRAM

What is taken off the ring has to reach the socket.

* `onedramSendLoop_round` — a round of the loop;
* `onedramSendLoop_drained` — the loop ends, and what it leaves;
* `onedramFmtSendCmd_iff` — which contents of the ring are sent whole.
-/

variable {b : Board} {s : Onedram}

/-! ### The outbound ring -/

/-- The bytes of the outbound ring from a position on, as long as they do not wrap. -/
def Onedram.outBytes (s : Onedram) (pos size : Nat) : List Byte :=
  bytesAt s.mem (onedramSharedBase + (fmtInfo.outBuffAddr + pos)) size

/-- How many bytes between tail and head come before the end of the ring. -/
def Onedram.pieceLen (s : Onedram) : Nat :=
  if s.outTail ≤ s.outHead then s.outHead - s.outTail else fmtInfo.outBuffSize - s.outTail

/-- The bytes between tail and head, in order. -/
def Onedram.outContent (s : Onedram) : List Byte :=
  if s.outTail ≤ s.outHead then s.outBytes s.outTail (s.outHead - s.outTail)
  else s.outBytes s.outTail (fmtInfo.outBuffSize - s.outTail) ++ s.outBytes 0 s.outHead

/-- Head and tail are positions of the ring. -/
structure Onedram.OutInRange (s : Onedram) : Prop where
  head : s.outHead < fmtInfo.outBuffSize
  tail : s.outTail < fmtInfo.outBuffSize

/-- What waits for the socket. -/
def Onedram.queued (s : Onedram) : List Byte := bytesAt s.socketBuffer 0 s.socketLen

/-- **What is off the ring has been sent**: the socket was given the first bytes of the ring in
    order, and the others are still there. -/
structure Delivered (s s' : Onedram) : Prop where
  head : s'.outHead = s.outHead
  bytes : ∃ sent, s'.sent = s.sent ++ sent ∧ s.outContent = sent ++ s'.outContent

/-- One round of the loop: a piece is off the ring, and what there is room for is queued. -/
structure Round (s s' : Onedram) : Prop where
  sem : s'.sem = 0
  range : s'.OutInRange
  head : s'.outHead = s.outHead
  content : s.outContent = s.outBytes s.outTail s.pieceLen ++ s'.outContent
  last : s'.outContent.length = s'.pieceLen
  queued : s'.queued =
    s.queued ++ (s.outBytes s.outTail s.pieceLen).take (socketBufferMaxSize - s.socketLen)
  len : s'.socketLen = min socketBufferMaxSize (s.socketLen + s.pieceLen)
  sent : s'.sent = s.sent

/-- A read into the socket buffer goes behind what is queued. -/
theorem onedramReadSocket_spec (hsem : s.sem = 0) {pos size : Nat}
    (h : pos + size ≤ fmtInfo.outBuffSize) :
    ∃ buffer, onedramReadSocket b s (fmtInfo.outBuffAddr + pos) size =
        { s with socketBuffer := buffer } ∧
      bytesAt buffer 0 (s.socketLen + size) = s.queued ++ s.outBytes pos size := by
  obtain rfl | hpos := Nat.eq_zero_or_pos size
  -- a mapping of no bytes may fail
  · unfold onedramReadSocket
    cases hread : onedramReadShm b s (fmtInfo.outBuffAddr + pos) 0 with
    | none => exact ⟨s.socketBuffer, rfl, (List.append_nil _).symm⟩
    | some bytes =>
      refine ⟨_, rfl, ?_⟩
      rw [Nat.add_zero, bytesAt_storeAt_of_disjoint (.inl (by omega))]
      exact (List.append_nil _).symm
  · have hA : fmtInfo.outBuffAddr = 0xFE000 := rfl
    have hN : fmtInfo.outBuffSize = 0x1000 := rfl
    have hS : onedramSharedSize = 0x500000 := rfl
    refine ⟨storeAt s.socketBuffer s.socketLen (s.outBytes pos size), ?_, ?_⟩
    · rw [onedramReadSocket, onedramReadShm_eq hsem hpos (by omega)]
      rfl
    · have hlen : (s.outBytes pos size).length = size := length_bytesAt ..
      have hstore := bytesAt_storeAt s.socketBuffer s.socketLen (s.outBytes pos size)
      rw [hlen] at hstore
      rw [bytesAt_add, bytesAt_storeAt_of_disjoint (.inl (by omega)), Nat.zero_add, hstore]
      rfl

theorem outBytes_store (n pos size : Nat) :
    (s.store fmtInfo.outTailAddr (leBytes n)).outBytes pos size = s.outBytes pos size := by
  refine bytesAt_storeAt_of_disjoint (.inr ?_)
  have hA : fmtInfo.outBuffAddr = 0xFE000 := rfl
  have hT : fmtInfo.outTailAddr = 0x14 := rfl
  rw [length_leBytes]
  omega

theorem outHead_store (n : Nat) :
    (s.store fmtInfo.outTailAddr (leBytes n)).outHead = s.outHead :=
  Onedram.ptr_store_of_disjoint (.inl (by decide))

theorem outTail_store {n : Nat} (hn : n < 2 ^ 32) :
    (s.store fmtInfo.outTailAddr (leBytes n)).outTail = n :=
  s.ptr_store _ hn

/-- The next tail. -/
def Onedram.nextTail (s : Onedram) : Nat := (s.outTail + s.pieceLen) % fmtInfo.outBuffSize

theorem nextTail_eq (h : s.OutInRange) :
    s.nextTail = if s.outTail ≤ s.outHead then s.outHead else 0 := by
  have hhead := h.head
  have htail := h.tail
  have hN : fmtInfo.outBuffSize = 0x1000 := rfl
  rw [Onedram.nextTail, Onedram.pieceLen, hN]
  split_ifs
  · omega
  · omega

theorem length_outContent (h : s.outTail ≤ s.outHead) : s.outContent.length = s.pieceLen := by
  rw [Onedram.outContent, Onedram.pieceLen, if_pos h, if_pos h]
  exact length_bytesAt ..

/-- With the semaphore, the next piece is taken off the ring. -/
theorem onedramReadFmt_eq (hsem : s.sem = 0) (h : s.OutInRange) :
    onedramReadFmt b s =
      if s.pieceLen = 0 then (s, some (fmtInfo.outBuffAddr + s.outTail, 0))
      else (s.store fmtInfo.outTailAddr (leBytes s.nextTail),
        some (fmtInfo.outBuffAddr + s.outTail, s.pieceLen)) := by
  have hhead := h.head
  have htail := h.tail
  have hread : onedramReadOuthead b s = s.outHead := onedramReadPtr_eq hsem (by decide)
  have hread' : onedramReadOuttail b s = s.outTail := onedramReadPtr_eq hsem (by decide)
  have hwrite : onedramWriteOuttail b s s.nextTail = s.store fmtInfo.outTailAddr _ :=
    onedramWritePtr_eq hsem _ (by decide)
  unfold onedramReadFmt
  rw [hread, hread', if_neg (by omega)]
  -- an empty ring is left alone
  by_cases heq : s.outHead = s.outTail
  · have hzero : s.pieceLen = 0 := by
      rw [Onedram.pieceLen, if_pos heq.ge]
      omega
    rw [if_pos heq, if_pos hzero]
  · have hlen : (if s.outTail < s.outHead then s.outHead - s.outTail
        else fmtInfo.outBuffSize - s.outTail) = s.pieceLen := by
      unfold Onedram.pieceLen
      split_ifs
      · rfl
      · omega
      · omega
      · rfl
    have hpos : s.pieceLen ≠ 0 := by
      unfold Onedram.pieceLen
      split_ifs
      · omega
      · omega
    rw [if_neg heq, if_neg hpos]
    dsimp only
    rw [hlen, ← hwrite]
    rfl

/-- With it, a piece goes into the socket buffer, up to its size. -/
theorem onedramInsertSocket_eq (hsem : s.sem = 0) (hlen : s.socketLen ≤ socketBufferMaxSize)
    {pos size : Nat} (h : pos + size ≤ fmtInfo.outBuffSize) :
    ∃ buffer, onedramInsertSocket b s (fmtInfo.outBuffAddr + pos) size =
        ({ s with
            socketBuffer := buffer
            socketLen := min socketBufferMaxSize (s.socketLen + size) },
          decide (s.socketLen + size < socketBufferMaxSize)) ∧
      bytesAt buffer 0 (min socketBufferMaxSize (s.socketLen + size)) =
        s.queued ++ (s.outBytes pos size).take (socketBufferMaxSize - s.socketLen) := by
  unfold onedramInsertSocket
  by_cases hfull : socketBufferMaxSize ≤ s.socketLen + size
  · have hroom : pos + (socketBufferMaxSize - s.socketLen) ≤ fmtInfo.outBuffSize := by omega
    obtain ⟨buffer, hread, hbytes⟩ := onedramReadSocket_spec (b := b) hsem hroom
    rw [if_pos hfull, hread, Nat.min_eq_left hfull, decide_eq_false (Nat.not_lt.mpr hfull)]
    refine ⟨buffer, rfl, ?_⟩
    rw [Nat.add_sub_cancel' hlen] at hbytes
    rw [hbytes, Onedram.outBytes, Onedram.outBytes, take_bytesAt _ _ (by omega)]
  · obtain ⟨buffer, hread, hbytes⟩ := onedramReadSocket_spec (b := b) hsem h
    have hlt : s.socketLen + size < socketBufferMaxSize := Nat.not_le.mp hfull
    rw [if_neg hfull, hread, Nat.min_eq_right hlt.le, decide_eq_true hlt]
    refine ⟨buffer, rfl, ?_⟩
    have hall : (s.outBytes pos size).length ≤ socketBufferMaxSize - s.socketLen := by
      rw [Onedram.outBytes, length_bytesAt]
      omega
    rw [hbytes, List.take_of_length_le hall]

theorem pieceLen_le (h : s.OutInRange) : s.outTail + s.pieceLen ≤ fmtInfo.outBuffSize := by
  have hhead := h.head
  have htail := h.tail
  unfold Onedram.pieceLen
  split_ifs
  · omega
  · omega

/-- The content of the ring, in terms of the memory and the indexes alone. -/
theorem outContent_congr {s' : Onedram} (hhead : s'.outHead = s.outHead)
    (htail : s'.outTail = s.nextTail)
    (hbytes : ∀ pos size, s'.outBytes pos size = s.outBytes pos size)
    (h : s.OutInRange) :
    s.outContent = s.outBytes s.outTail s.pieceLen ++ s'.outContent ∧ s'.outTail ≤ s'.outHead := by
  rw [nextTail_eq h] at htail
  by_cases hle : s.outTail ≤ s.outHead
  · rw [if_pos hle] at htail
    have hle' : s'.outTail ≤ s'.outHead := by rw [htail, hhead]
    have hnil : s'.outContent = [] := by
      rw [Onedram.outContent, if_pos hle', htail, hhead, Nat.sub_self]
      rfl
    refine ⟨?_, hle'⟩
    rw [hnil, List.append_nil, Onedram.outContent, if_pos hle, Onedram.pieceLen, if_pos hle]
  · rw [if_neg hle] at htail
    have hle' : s'.outTail ≤ s'.outHead := by
      rw [htail]
      exact Nat.zero_le _
    refine ⟨?_, hle'⟩
    rw [Onedram.outContent, if_neg hle, Onedram.pieceLen, if_neg hle, Onedram.outContent,
      if_pos hle', htail, hhead, hbytes, Nat.sub_zero]

/-- **A round of the loop** that finds something in the ring. -/
theorem onedramSendLoop_round (hsem : s.sem = 0) (h : s.OutInRange)
    (hlen : s.socketLen ≤ socketBufferMaxSize) (hpos : s.pieceLen ≠ 0) :
    ∃ s', Round s s' ∧ ∀ fuel, onedramSendLoop b (fuel + 1) s =
      if s.socketLen + s.pieceLen < socketBufferMaxSize then onedramSendLoop b fuel s'
      else some (s', 0) := by
  have hN : fmtInfo.outBuffSize = 0x1000 := rfl
  have hnext : s.nextTail < fmtInfo.outBuffSize := Nat.mod_lt _ (by decide)
  have hpiece := pieceLen_le h
  obtain ⟨s₁, hs₁⟩ : ∃ s₁, s₁ = s.store fmtInfo.outTailAddr (leBytes s.nextTail) := ⟨_, rfl⟩
  have hbytes₁ : ∀ pos size, s₁.outBytes pos size = s.outBytes pos size := by
    rw [hs₁]
    exact outBytes_store s.nextTail
  have hhead₁ : s₁.outHead = s.outHead := by
    rw [hs₁]
    exact outHead_store s.nextTail
  have htail₁ : s₁.outTail = s.nextTail := by
    rw [hs₁]
    exact outTail_store (by omega)
  have hsem₁ : s₁.sem = 0 := by rw [hs₁]; exact hsem
  have hlen₁ : s₁.socketLen = s.socketLen := by rw [hs₁]; rfl
  have hsent₁ : s₁.sent = s.sent := by rw [hs₁]; rfl
  have hqueued₁ : s₁.queued = s.queued := by rw [hs₁]; rfl
  obtain ⟨buffer, hinsert, hbuffer⟩ := onedramInsertSocket_eq (b := b) hsem₁
    (hlen₁.le.trans hlen) hpiece
  rw [hlen₁] at hinsert hbuffer
  rw [hbytes₁, hqueued₁] at hbuffer
  -- the piece goes from the ring to the socket, and the tail past it
  refine ⟨{ s₁ with
      socketBuffer := buffer
      socketLen := min socketBufferMaxSize (s.socketLen + s.pieceLen) }, ?_, fun fuel => ?_⟩
  · have hcontent := outContent_congr hhead₁ htail₁ hbytes₁ h
    have hhead := h.head
    exact
      { sem := hsem₁
        range := ⟨hhead₁.trans_lt hhead, htail₁.trans_lt hnext⟩
        head := hhead₁
        content := hcontent.1
        last := length_outContent hcontent.2
        queued := hbuffer
        len := rfl
        sent := hsent₁ }
  · have hmod : s.pieceLen % 2 ^ 16 = s.pieceLen := Nat.mod_eq_of_lt (by omega)
    rw [onedramSendLoop, onedramReadFmt_eq hsem h, if_neg hpos, ← hs₁]
    dsimp only
    rw [if_neg hpos, hmod, hinsert]
    by_cases hroom : s.socketLen + s.pieceLen < socketBufferMaxSize
    · rw [if_pos hroom, decide_eq_true hroom]
    · rw [if_neg hroom, decide_eq_false hroom]

theorem onedramSendLoop_empty (hsem : s.sem = 0) (h : s.OutInRange) (hpos : s.pieceLen = 0)
    (fuel : Nat) : onedramSendLoop b (fuel + 1) s = some (s, 0) := by
  rw [onedramSendLoop, onedramReadFmt_eq hsem h, if_pos hpos]
  rfl

theorem onedramSendLoop_locked (hsem : s.sem ≠ 0) (fuel : Nat) :
    onedramSendLoop b (fuel + 1) s = some (s, 0) := by
  have hread : onedramReadFmt b s = (s, some (fmtInfo.outBuffAddr, 0)) := by
    unfold onedramReadFmt onedramReadOuthead onedramReadOuttail
    rw [onedramReadPtr_locked hsem, onedramReadPtr_locked hsem, if_neg (by decide), if_pos rfl]
    rfl
  rw [onedramSendLoop, hread]
  rfl

/-- What the loop does: it queues what there is room for, and that is all that it takes off the ring
    unless there is more of it. -/
structure Drained (s s' : Onedram) : Prop where
  head : s'.outHead = s.outHead
  sent : s'.sent = s.sent
  bytes : s.outContent = s'.queued ++ s'.outContent ↔
    s.pieceLen = socketBufferMaxSize ∨ s.outContent.length ≤ socketBufferMaxSize

theorem queued_empty (hlen : s.socketLen = 0) : s.queued = [] := by
  rw [Onedram.queued, hlen]
  rfl

theorem length_outBytes (pos size : Nat) : (s.outBytes pos size).length = size := length_bytesAt ..

theorem outContent_of_pieceLen (h : s.OutInRange) (hpos : s.pieceLen = 0) : s.outContent = [] := by
  have htail := h.tail
  have hle : s.outTail ≤ s.outHead := by
    by_contra hle
    rw [Onedram.pieceLen, if_neg hle] at hpos
    omega
  apply List.eq_nil_of_length_eq_zero
  rw [length_outContent hle, hpos]

theorem Drained.empty (h : s.OutInRange) (hlen : s.socketLen = 0) (hpos : s.pieceLen = 0) :
    Drained s s := by
  refine ⟨rfl, rfl, ?_⟩
  rw [outContent_of_pieceLen h hpos, queued_empty hlen]
  exact iff_of_true rfl (.inr (Nat.zero_le _))

/-- The first piece fills the buffer. -/
theorem Drained.full {s' : Onedram} (h : Round s s') (hlen : s.socketLen = 0)
    (hfull : ¬s.socketLen + s.pieceLen < socketBufferMaxSize) : Drained s s' := by
  refine ⟨h.head, h.sent, ?_⟩
  have hpiece := length_outBytes (s := s) s.outTail s.pieceLen
  rw [h.queued, h.content, queued_empty hlen, hlen, List.nil_append, Nat.sub_zero,
    List.append_left_inj, List.length_append, hpiece]
  constructor
  · intro heq
    have hcount := congrArg List.length heq
    rw [List.length_take, hpiece] at hcount
    omega
  · intro _
    refine (List.take_of_length_le ?_).symm
    rw [hpiece]
    omega

/-- The first piece is all. -/
theorem Drained.one {s' : Onedram} (h : Round s s') (hlen : s.socketLen = 0)
    (hroom : s.socketLen + s.pieceLen < socketBufferMaxSize) (hpos : s'.pieceLen = 0) :
    Drained s s' := by
  refine ⟨h.head, h.sent, ?_⟩
  have hpiece := length_outBytes (s := s) s.outTail s.pieceLen
  have htake : (s.outBytes s.outTail s.pieceLen).take (socketBufferMaxSize - s.socketLen) = _ :=
    List.take_of_length_le (by omega)
  rw [h.queued, h.content, queued_empty hlen, htake, List.nil_append, List.length_append, hpiece,
    h.last, hpos]
  exact iff_of_true rfl (.inr (by omega))

/-- A second piece, from the start of the ring. -/
theorem Drained.two {s₁ s₂ : Onedram} (h : Round s s₁) (h' : Round s₁ s₂) (hlen : s.socketLen = 0)
    (hroom : s.socketLen + s.pieceLen < socketBufferMaxSize) (hnil : s₂.outContent = []) :
    Drained s s₂ := by
  refine ⟨h'.head.trans h.head, h'.sent.trans h.sent, ?_⟩
  have hpiece := length_outBytes (s := s) s.outTail s.pieceLen
  have hpiece' := length_outBytes (s := s₁) s₁.outTail s₁.pieceLen
  have htake : (s.outBytes s.outTail s.pieceLen).take (socketBufferMaxSize - s.socketLen) = _ :=
    List.take_of_length_le (by omega)
  have hlen₁ := h.len
  rw [h'.queued, h.queued, h.content, h'.content, hnil, queued_empty hlen, htake, List.nil_append,
    List.append_nil, List.append_nil, List.append_right_inj, List.length_append, hpiece, hpiece']
  constructor
  · intro heq
    have hcount := congrArg List.length heq
    rw [List.length_take, hpiece'] at hcount
    omega
  · intro _
    refine (List.take_of_length_le ?_).symm
    rw [hpiece']
    omega

/-- **The loop ends** after at most three rounds. -/
theorem onedramSendLoop_drained (hsem : s.sem = 0) (h : s.OutInRange) (hlen : s.socketLen = 0) :
    ∃ s', Drained s s' ∧ ∀ fuel, onedramSendLoop b (fuel + 3) s = some (s', 0) := by
  by_cases hpos : s.pieceLen = 0
  · exact ⟨s, .empty h hlen hpos, fun fuel => onedramSendLoop_empty hsem h hpos _⟩
  · obtain ⟨s₁, hround, hloop⟩ := onedramSendLoop_round (b := b) hsem h (by omega) hpos
    by_cases hroom : s.socketLen + s.pieceLen < socketBufferMaxSize
    · simp only [if_pos hroom] at hloop
      by_cases hpos₁ : s₁.pieceLen = 0
      · refine ⟨s₁, .one hround hlen hroom hpos₁, fun fuel => ?_⟩
        rw [hloop]
        exact onedramSendLoop_empty hround.sem hround.range hpos₁ _
      · obtain ⟨s₂, hround₂, hloop₂⟩ := onedramSendLoop_round (b := b) hround.sem hround.range
          (by rw [hround.len]; exact Nat.min_le_left ..) hpos₁
        have hlast := congrArg List.length hround₂.content
        rw [hround.last, List.length_append, length_outBytes] at hlast
        have hnil : s₂.outContent = [] := List.eq_nil_of_length_eq_zero (by omega)
        refine ⟨s₂, .two hround hround₂ hlen hroom hnil, fun fuel => ?_⟩
        rw [hloop, hloop₂]
        split_ifs
        · have hpos₂ : s₂.pieceLen = 0 := by
            rw [← hround₂.last, hnil]
            rfl
          exact onedramSendLoop_empty hround₂.sem hround₂.range hpos₂ _
        · rfl
    · simp only [if_neg hroom] at hloop
      exact ⟨s₁, .full hround hlen hroom, fun fuel => hloop _⟩

/-- The flush, and the end of the command. -/
def Onedram.flush (s : Onedram) : Onedram :=
  onedramEnableWrite (onedramEnableInterrupt (onedramSocketPush s))

/-- What is off the ring has been sent if it fits the socket buffer. -/
theorem delivered_flush {s' : Onedram} (h : Drained s s') :
    Delivered s s'.flush ↔
      s.pieceLen = socketBufferMaxSize ∨ s.outContent.length ≤ socketBufferMaxSize := by
  have hsent : s'.flush.sent = s.sent ++ s'.queued := by
    rw [← h.sent]
    rfl
  rw [← h.bytes]
  constructor
  · rintro ⟨-, sent, hsent', hcontent⟩
    obtain rfl : s'.queued = sent := List.append_cancel_left (hsent.symm.trans hsent')
    exact hcontent
  · intro hcontent
    exact ⟨h.head, s'.queued, hsent, hcontent⟩

theorem outHead_of_mem {s' : Onedram} (h : s'.mem = s.mem) : s'.outHead = s.outHead := by
  rw [Onedram.outHead, Onedram.ptr, h]
  rfl

theorem outContent_of_mem {s' : Onedram} (h : s'.mem = s.mem) : s'.outContent = s.outContent := by
  have htail : s'.outTail = s.outTail := by
    rw [Onedram.outTail, Onedram.ptr, h]
    rfl
  unfold Onedram.outContent Onedram.outBytes
  rw [outHead_of_mem h, htail, h]

theorem onedramFmtSendCmd_eq {s₁ : Onedram} {ret : Int} {fuel : Nat}
    (h : onedramSendLoop b fuel s.shut = some (s₁, ret)) :
    onedramFmtSendCmd b fuel s = some (s₁.flush, ret) :=
  congrArg (Option.map fun r : Onedram × Int => (r.1.flush, r.2)) h

/-- The command while the memory is the modem's. -/
theorem onedramFmtSendCmd_unlocked (b : Board) (hsem : s.sem = 0) (h : s.OutInRange)
    (hlen : s.socketLen = 0) :
    ∃ s', (∀ fuel, onedramFmtSendCmd b (fuel + 3) s = some (s', 0)) ∧
      (Delivered s s' ↔
        s.pieceLen = socketBufferMaxSize ∨ s.outContent.length ≤ socketBufferMaxSize) := by
  obtain ⟨s₁, hdrained, hloop⟩ := onedramSendLoop_drained (b := b) (s := s.shut) hsem
    ⟨h.head, h.tail⟩ hlen
  refine ⟨s₁.flush, fun fuel => onedramFmtSendCmd_eq (hloop fuel), ?_⟩
  exact delivered_flush ⟨hdrained.head, hdrained.sent, hdrained.bytes⟩

/-- **What is taken off the outbound ring is sent** exactly if the memory is not the modem's, so
    that nothing is taken, or all of it fits the socket buffer, or a first piece fills it. -/
theorem onedramFmtSendCmd_iff (b : Board) (s : Onedram) (h : s.OutInRange)
    (hlen : s.socketLen = 0) :
    ∃ s', (∀ fuel, onedramFmtSendCmd b (fuel + 3) s = some (s', 0)) ∧
      (Delivered s s' ↔ s.sem ≠ 0 ∨ s.pieceLen = socketBufferMaxSize ∨
        s.outContent.length ≤ socketBufferMaxSize) := by
  by_cases hsem : s.sem = 0
  · obtain ⟨s', hrun, hiff⟩ := onedramFmtSendCmd_unlocked b hsem h hlen
    refine ⟨s', hrun, ?_⟩
    rw [or_iff_right (not_not.mpr hsem)]
    exact hiff
  · refine ⟨s.shut.flush, fun fuel =>
      onedramFmtSendCmd_eq (onedramSendLoop_locked (s := s.shut) hsem _), ?_⟩
    have hmem : s.shut.flush.mem = s.mem := rfl
    refine iff_of_true ⟨outHead_of_mem hmem, [], ?_, (outContent_of_mem hmem).symm⟩ (.inl hsem)
    exact congrArg (s.sent ++ ·) (queued_empty hlen)

/-- A ring whose content wraps around its end. -/
theorem onedramFmtSendCmd_iff_wraps :
    ∃ s', (∀ fuel, onedramFmtSendCmd .ram (fuel + 3) (.indexed fmtInfo.outHeadAddr 2 0xFFE) =
        some (s', 0)) ∧
      Delivered (.indexed fmtInfo.outHeadAddr 2 0xFFE) s' := by
  obtain ⟨s', hrun, hiff⟩ := onedramFmtSendCmd_iff .ram (.indexed fmtInfo.outHeadAddr 2 0xFFE)
    ⟨by decide, by decide⟩ rfl
  exact ⟨s', hrun, hiff.mpr (.inr (.inr (by decide)))⟩

/-- One byte more than the socket buffer takes is lost. -/
theorem onedramFmtSendCmd_loses :
    ¬∃ s', (∀ fuel, onedramFmtSendCmd .ram (fuel + 3) (.indexed fmtInfo.outHeadAddr 0x401 0) =
        some (s', 0)) ∧
      Delivered (.indexed fmtInfo.outHeadAddr 0x401 0) s' := by
  rintro ⟨s', hrun, hdelivered⟩
  have hle : (Onedram.indexed fmtInfo.outHeadAddr 0x401 0).outTail ≤
      (Onedram.indexed fmtInfo.outHeadAddr 0x401 0).outHead := by decide
  have hlen : (Onedram.indexed fmtInfo.outHeadAddr 0x401 0).pieceLen = 0x401 := by decide
  obtain ⟨s₁, hrun₁, hiff⟩ := onedramFmtSendCmd_unlocked .ram
    (s := .indexed fmtInfo.outHeadAddr 0x401 0) rfl ⟨by decide, by decide⟩ rfl
  obtain rfl : s₁ = s' := congrArg Prod.fst (Option.some.inj ((hrun₁ 0).symm.trans (hrun 0)))
  have hlost := hiff.mp hdelivered
  rw [length_outContent hle, hlen] at hlost
  revert hlost
  decide

end Qemu.Hw
