import Qemu.Hw.OnedramShm
import Mathlib.Data.Int.ModEq

namespace Qemu.Hw

open Qemu.Lib

/-!
# Messages into the inbound ring of the OneDRAM

A message that is copied into the ring has to stay inside it and off what has not been read.

* `WrittenWell` — what a message is to do to the memory;
* `onedramCopyFmt_fits`, `onedramCopyFmt_stores` — the copies where they fit, and in any case;
* `onedramWriteFmt_iff` — for which indexes a message is written well.
-/

variable {b : Board} {s : Onedram}

/-! ### The inbound ring -/

/-- The address of the first byte of the inbound ring. -/
def inRing : Nat := onedramSharedBase + fmtInfo.inBuffAddr

/-- The place of a byte of the inbound ring. -/
def inPlace (i : Nat) : Nat := inRing + i % fmtInfo.inBuffSize

/-- The address is that of the head index. -/
def isInHead (a : Nat) : Bool :=
  decide (onedramSharedBase + fmtInfo.inHeadAddr ≤ a ∧
    a < onedramSharedBase + fmtInfo.inHeadAddr + fmtInfo.ptrSize)

/-- What was stored since, the head index apart. -/
def dataWrites (s s' : Onedram) : List (Nat × Byte) :=
  (s'.log.drop s.log.length).filter fun w => isInHead w.1 = false

/-- The position is between tail and head, around the ring. -/
def Unread (head tail p : Nat) : Prop :=
  (tail ≤ p ∧ p < head) ∨ (head < tail ∧ (tail ≤ p ∨ p < head))

/-- **A message is written well**: inside the ring, off what has not been read, and as the leading
    bytes of the message, as many as are reported, from the head on, which they advance. -/
structure WrittenWell (s : Onedram) (buf : List Byte) (s' : Onedram) (ret : Int) : Prop where
  inside : ∀ w ∈ dataWrites s s', inRing ≤ w.1 ∧ w.1 < inRing + fmtInfo.inBuffSize
  overrun : s'.overrun = s.overrun
  unread : ∀ w ∈ dataWrites s s', ∀ p < fmtInfo.inBuffSize, Unread s.inHead s.inTail p →
    w.1 ≠ inRing + p
  head : (s'.inHead : Int) ≡ s.inHead + ret [ZMOD fmtInfo.inBuffSize]
  count : 0 ≤ ret ∧ ret ≤ buf.length
  bytes : dataWrites s s' = placed inPlace s.inHead (buf.take ret.toNat)

/-- The indexes are such that the copies stay inside the ring. -/
def CopyFits (head tail len : Nat) : Prop :=
  if head < tail then tail = head + 1 ∨ head + min len (tail - head - 1) ≤ fmtInfo.inBuffSize
  else head < fmtInfo.inBuffSize ∨ (head = fmtInfo.inBuffSize ∧ 0 < tail)

instance decidableCopyFits (head tail len : Nat) : Decidable (CopyFits head tail len) := by
  unfold CopyFits
  infer_instance

/-! ### Copies -/

variable {n : Nat}

theorem toInt32_of_lt (h : n < 2 ^ 31) : toInt32 n = n := if_pos h

theorem toInt32_le (n : Nat) : toInt32 n ≤ n := by
  unfold toInt32
  split_ifs
  · exact le_refl _
  · omega

variable {head : Nat}

theorem placed_inPlace {l : List Byte} (h : head + l.length ≤ fmtInfo.inBuffSize) :
    placed id (inRing + head) l = placed inPlace head l := by
  refine placed_congr fun j hj => ?_
  rw [inPlace, Nat.mod_eq_of_lt (by omega)]
  exact Nat.add_assoc ..

/-- The address of the first piece. -/
def firstOffset (head : Nat) : Nat := (fmtInfo.inBuffAddr + head) % 2 ^ 32

/-- What a copy does to the device. -/
structure Copied (s s' : Onedram) (writes : List (Nat × Byte)) : Prop where
  sem : s'.sem = s.sem
  overrun : s'.overrun = s.overrun
  log : s'.log = s.log ++ writes

theorem Copied.trans {s₁ s₂ s₃ : Onedram} {w w' : List (Nat × Byte)} (h : Copied s₁ s₂ w)
    (h' : Copied s₂ s₃ w') : Copied s₁ s₃ (w ++ w') where
  sem := h'.sem.trans h.sem
  overrun := h'.overrun.trans h.overrun
  log := by rw [h'.log, h.log, List.append_assoc]

/-- A piece that stays inside the ring. -/
theorem onedramWriteShm_ring (hsem : s.sem = 0) {size : Nat} (buf : List Byte)
    (h : size = 0 ∨ head + size ≤ fmtInfo.inBuffSize) :
    Copied s (onedramWriteShm b s buf (firstOffset head) size)
      (placed inPlace head (buf.take size)) := by
  obtain rfl | hpos := Nat.eq_zero_or_pos size
  · rw [onedramWriteShm_zero, List.take_zero]
    exact ⟨rfl, rfl, (List.append_nil _).symm⟩
  · have hN : fmtInfo.inBuffSize = 0x1000 := rfl
    have hA : fmtInfo.inBuffAddr = 0xFF000 := rfl
    have hS : onedramSharedSize = 0x500000 := rfl
    have hF : onedramInFmtSize = 0x1000 := rfl
    have hmod : firstOffset head = fmtInfo.inBuffAddr + head := by
      apply Nat.mod_eq_of_lt
      omega
    rw [hmod, onedramWriteShm_eq hsem hpos (by omega) (by omega)]
    have hlen : (buf.take size).length ≤ size := List.length_take_le ..
    refine ⟨rfl, rfl, ?_⟩
    rw [← placed_inPlace (by omega)]
    show s.log ++ placed id (onedramSharedBase + (fmtInfo.inBuffAddr + head)) _ = _
    rw [← Nat.add_assoc]
    rfl

variable {buf : List Byte} {m : Nat}

theorem placed_wrap (hn : head + n = fmtInfo.inBuffSize) (hbuf : n ≤ buf.length) :
    placed inPlace head (buf.take n) ++ placed inPlace 0 ((buf.drop n).take m) =
      placed inPlace head (buf.take (n + m)) := by
  rw [List.take_add, placed_append, List.length_take, Nat.min_eq_left hbuf]
  refine congrArg (_ ++ ·) (placed_congr fun j _ => ?_)
  rw [hn, inPlace, inPlace, Nat.zero_add, Nat.add_mod_left]

/-! ### The branches of the copy -/

theorem ite_lt_eq_min (m n : Nat) : (if m < n then m else n) = min m n := by
  split_ifs
  · omega
  · omega

variable {tail : Nat}

theorem onedramCopyFmt_below (h : head < tail) :
    onedramCopyFmt b s buf head tail =
      (onedramWriteShm b s buf (firstOffset head) (min (tail - head - 1) buf.length),
        toInt32 (min (tail - head - 1) buf.length)) := by
  rw [← ite_lt_eq_min]
  exact if_pos h

theorem onedramCopyFmt_zero :
    onedramCopyFmt b s buf head 0 =
      (onedramWriteShm b s buf (firstOffset head)
          (min (sub32 (sub32 fmtInfo.inBuffSize head) 1) buf.length),
        toInt32 (min (sub32 (sub32 fmtInfo.inBuffSize head) 1) buf.length)) := by
  rw [← ite_lt_eq_min, onedramCopyFmt, if_neg (Nat.not_lt_zero _), if_pos rfl]
  rfl

/-- The head is not below the tail: a piece up to the end, and if that is not all, another. -/
theorem onedramCopyFmt_above (h : tail ≤ head) (hpos : 0 < tail)
    (hn : n = min (sub32 fmtInfo.inBuffSize head) buf.length) :
    onedramCopyFmt b s buf head tail =
      if toInt32 n < toInt32 buf.length then
        let rest := min (tail - 1) (toUint32 (buf.length - toInt32 n))
        (onedramWriteShm b (onedramWriteShm b s buf (firstOffset head) n)
          (buf.drop (toUint32 (toInt32 n))) fmtInfo.inBuffAddr rest, toInt32 n + toInt32 rest)
      else (onedramWriteShm b s buf (firstOffset head) n, toInt32 n) := by
  subst hn
  simp only [← ite_lt_eq_min]
  exact (if_neg (Nat.not_lt.mpr h)).trans (if_neg (Nat.ne_of_gt hpos))

/-- The count is right, and the bytes are copied off what has not been read. -/
def CopiesWell (s : Onedram) (buf : List Byte) (head tail : Nat) (r : Onedram × Int) : Prop :=
  ∃ n ≤ buf.length, r.2 = n ∧ (∀ i < n, ¬Unread head tail ((head + i) % fmtInfo.inBuffSize)) ∧
    Copied s r.1 (placed inPlace head (buf.take n))

/-- One piece below the end of the ring and off the unread bytes. -/
theorem copiesWell_piece (hsem : s.sem = 0) (hn : n ≤ buf.length)
    (hfit : n = 0 ∨ head + n ≤ fmtInfo.inBuffSize) (hfree : n = 0 ∨ tail ≤ head ∨ head + n < tail) :
    CopiesWell s buf head tail (onedramWriteShm b s buf (firstOffset head) n, toInt32 n) := by
  have hN : fmtInfo.inBuffSize = 0x1000 := rfl
  refine ⟨n, hn, toInt32_of_lt (by omega), ?_, onedramWriteShm_ring hsem buf hfit⟩
  intro i hi hu
  have hmod : (head + i) % fmtInfo.inBuffSize = (head + i) % 0x1000 := by rw [hN]
  rw [hmod] at hu
  obtain hu | hu := hu
  · omega
  · omega

/-- Two pieces, up to the end of the ring and from its start. -/
theorem copiesWell_pieces (hsem : s.sem = 0) (hlen : n + m ≤ buf.length)
    (hfit : head + n = fmtInfo.inBuffSize) (hle : tail ≤ head) (hm : m < tail) :
    CopiesWell s buf head tail
      (onedramWriteShm b (onedramWriteShm b s buf (firstOffset head) n) (buf.drop n)
        fmtInfo.inBuffAddr m, (n : Int) + toInt32 m) := by
  have hN : fmtInfo.inBuffSize = 0x1000 := rfl
  have hfirst := onedramWriteShm_ring (b := b) hsem buf (.inr hfit.le)
  have hroom : m = 0 ∨ 0 + m ≤ fmtInfo.inBuffSize := .inr (by omega)
  have hsecond := onedramWriteShm_ring (b := b) (hfirst.sem.trans hsem) (buf.drop n) hroom
  have hboth := hfirst.trans hsecond
  rw [placed_wrap hfit (by omega)] at hboth
  refine ⟨n + m, hlen, ?_, ?_, hboth⟩
  · rw [toInt32_of_lt (by omega)]
    exact (Nat.cast_add n m).symm
  · intro i hi hu
    have hmod : (head + i) % fmtInfo.inBuffSize = (head + i) % 0x1000 := by rw [hN]
    rw [hmod] at hu
    obtain hu | hu := hu
    · omega
    · omega

/-- **The copies are right** where they stay inside the ring. -/
theorem onedramCopyFmt_fits (hsem : s.sem = 0) (hhead : head < 2 ^ 32)
    (hbuf : buf.length < 2 ^ 32) (h : buf.length = 0 ∨ CopyFits head tail buf.length) :
    CopiesWell s buf head tail (onedramCopyFmt b s buf head tail) := by
  have hN : fmtInfo.inBuffSize = 0x1000 := rfl
  unfold CopyFits at h
  -- head in front of the tail: one piece; behind it: up to the end, then from the start
  by_cases hlt : head < tail
  · rw [if_pos hlt] at h
    rw [onedramCopyFmt_below hlt]
    exact copiesWell_piece hsem (Nat.min_le_right ..) (by omega) (by omega)
  · rw [if_neg hlt] at h
    by_cases hzero : tail = 0
    · subst hzero
      rw [onedramCopyFmt_zero]
      refine copiesWell_piece hsem (Nat.min_le_right ..) ?_ (.inr (.inl (Nat.zero_le _)))
      unfold sub32
      omega
    · obtain ⟨n, hn⟩ : ∃ n, n = min (sub32 fmtInfo.inBuffSize head) buf.length := ⟨_, rfl⟩
      rw [onedramCopyFmt_above (Nat.not_lt.mp hlt) (Nat.pos_of_ne_zero hzero) hn]
      have hfit : n = 0 ∨ head + n ≤ fmtInfo.inBuffSize := by
        unfold sub32 at hn
        omega
      rw [toInt32_of_lt (n := n) (by omega)]
      split_ifs with hmore
      · have hlt' : (n : Int) < buf.length := hmore.trans_le (toInt32_le _)
        have hend : head + n = fmtInfo.inBuffSize := by
          unfold sub32 at hn
          omega
        have hrest : toUint32 (buf.length - n) = buf.length - n := by
          unfold toUint32
          omega
        have hdrop : toUint32 n = n := by
          unfold toUint32
          omega
        rw [hrest, hdrop]
        exact copiesWell_pieces hsem (by omega) hend (Nat.not_lt.mp hlt) (by omega)
      · have hpiece : CopiesWell s buf head tail
            (onedramWriteShm b s buf (firstOffset head) n, toInt32 n) :=
          copiesWell_piece hsem (by omega) hfit (.inr (.inl (Nat.not_lt.mp hlt)))
        rwa [toInt32_of_lt (n := n) (by omega)] at hpiece

/-! ### Copies that go wrong -/

/-- The size of the first piece. -/
def firstSize (head tail len : Nat) : Nat :=
  if head < tail then min (tail - head - 1) len
  else if tail = 0 then min (sub32 (sub32 fmtInfo.inBuffSize head) 1) len
  else min (sub32 fmtInfo.inBuffSize head) len

/-- The first piece is below the end of the ring only where the copies fit. -/
theorem copyFits_of_firstSize {len : Nat} (hhead : head < 2 ^ 32)
    (h : firstSize head tail len = 0 ∨ head + firstSize head tail len ≤ fmtInfo.inBuffSize) :
    len = 0 ∨ CopyFits head tail len := by
  have hN : fmtInfo.inBuffSize = 0x1000 := rfl
  unfold firstSize at h
  unfold CopyFits
  by_cases hlt : head < tail
  · simp only [if_pos hlt] at h ⊢
    omega
  · simp only [if_neg hlt] at h ⊢
    by_cases hzero : tail = 0
    · simp only [if_pos hzero, sub32] at h
      omega
    · simp only [if_neg hzero, sub32] at h
      omega

/-- What a copy has stored: bytes of a first piece, which lie where the head says, and of a second
    one, no more of each than are counted for it. -/
def Stores (s : Onedram) (head n m : Nat) (r : Onedram × Int) : Prop :=
  ∃ (l : List Byte) (l' : List (Nat × Byte)), l.length ≤ n ∧ l'.length ≤ m ∧
    r.1.log = s.log ++ (placed id ((onedramSharedBase + firstOffset head) % 2 ^ 32) l ++ l')

theorem stores_piece (b : Board) (s : Onedram) (buf : List Byte) (head n : Nat) (ret : Int) :
    Stores s head n 0 (onedramWriteShm b s buf (firstOffset head) n, ret) := by
  obtain ⟨l, hl, -, hlog⟩ := onedramWriteShm_log b s buf (firstOffset head) n
  refine ⟨l, [], hl, Nat.le_refl 0, ?_⟩
  rw [List.append_nil]
  exact hlog

/-- A message that is stored in two. -/
theorem stores_pieces (b : Board) (s : Onedram) (buf buf' : List Byte) (head n m : Nat)
    (ret : Int) :
    Stores s head n m
      (onedramWriteShm b (onedramWriteShm b s buf (firstOffset head) n) buf' fmtInfo.inBuffAddr m,
        ret) := by
  obtain ⟨l, hl, -, hlog⟩ := onedramWriteShm_log b s buf (firstOffset head) n
  obtain ⟨l', hl', -, hlog'⟩ := onedramWriteShm_log b
    (onedramWriteShm b s buf (firstOffset head) n) buf' fmtInfo.inBuffAddr m
  refine ⟨l, placed id ((onedramSharedBase + fmtInfo.inBuffAddr) % 2 ^ 32) l', hl, ?_, ?_⟩
  · rwa [length_placed]
  · rw [← List.append_assoc, ← hlog]
    exact hlog'

/-- The count of two pieces is no count if it does not fit an `int`. -/
theorem count_pieces {len : Nat} (hn : n ≤ len) (hlen : len < 2 ^ 32)
    (hm : m ≤ toUint32 (len - toInt32 n)) (hmore : toInt32 n < toInt32 len)
    (h : 0 ≤ toInt32 n + toInt32 m) : toInt32 n + toInt32 m = n + m := by
  have hm' : toInt32 m ≤ m := toInt32_le m
  have hrest : m ≤ len - n := by
    unfold toUint32 toInt32 at hm
    split_ifs at hm
    · omega
    · omega
  have hsmall : n < 2 ^ 31 := by
    by_contra hbig
    rw [toInt32, if_neg hbig] at h
    omega
  rw [toInt32_of_lt hsmall] at hmore ⊢
  have hlen' : len < 2 ^ 31 := by
    by_contra hbig
    rw [toInt32, if_neg hbig] at hmore
    omega
  rw [toInt32_of_lt (by omega)]

theorem count_piece (h : 0 ≤ toInt32 n) (hn : n < 2 ^ 32) : toInt32 n = n + (0 : Nat) := by
  unfold toInt32 at h ⊢
  split_ifs at h ⊢
  · omega
  · omega

/-- What the copy of a message stores, and what it returns. -/
theorem onedramCopyFmt_stores (b : Board) (s : Onedram) (head tail : Nat)
    (hbuf : buf.length < 2 ^ 32) :
    ∃ m, Stores s head (firstSize head tail buf.length) m (onedramCopyFmt b s buf head tail) ∧
      (0 ≤ (onedramCopyFmt b s buf head tail).2 →
        (onedramCopyFmt b s buf head tail).2 = firstSize head tail buf.length + m) := by
  unfold firstSize
  by_cases hlt : head < tail
  · rw [if_pos hlt, onedramCopyFmt_below hlt]
    exact ⟨0, stores_piece .., fun h => count_piece h (by omega)⟩
  · rw [if_neg hlt]
    by_cases hzero : tail = 0
    · subst hzero
      rw [if_pos rfl, onedramCopyFmt_zero]
      generalize hn : min (sub32 (sub32 fmtInfo.inBuffSize head) 1) buf.length = n
      exact ⟨0, stores_piece .., fun h => count_piece h (by omega)⟩
    · rw [if_neg hzero]
      obtain ⟨n, hn⟩ : ∃ n, n = min (sub32 fmtInfo.inBuffSize head) buf.length := ⟨_, rfl⟩
      rw [onedramCopyFmt_above (Nat.not_lt.mp hlt) (Nat.pos_of_ne_zero hzero) hn, ← hn]
      split_ifs with hmore
      · exact ⟨_, stores_pieces .., count_pieces (by omega) hbuf (Nat.min_le_right ..) hmore⟩
      · exact ⟨0, stores_piece .., fun h => count_piece h (by omega)⟩

/-- If what was stored is as many bytes as counted, at the places of the ring from the head on, then
    the first piece ends below the end of the ring. -/
theorem firstPiece_inside {head n m : Nat} (hhead : head < 2 ^ 32) {l : List Byte}
    {l' : List (Nat × Byte)} (hl : l.length ≤ n) (hl' : l'.length ≤ m) {bytes : List Byte}
    (hlen : bytes.length = n + m) {p : Nat × Byte → Bool}
    (h : (placed id ((onedramSharedBase + firstOffset head) % 2 ^ 32) l ++ l').filter p =
      placed inPlace head bytes) :
    n = 0 ∨ head + n ≤ fmtInfo.inBuffSize := by
  have hcount := congrArg List.length h
  rw [length_placed, hlen] at hcount
  have hle := List.length_filter_le p
    (placed id ((onedramSharedBase + firstOffset head) % 2 ^ 32) l ++ l')
  rw [List.length_append, length_placed] at hle
  -- no write was filtered out, since as many are left as bytes were given
  have hall : (placed id ((onedramSharedBase + firstOffset head) % 2 ^ 32) l ++ l').filter p =
      placed id ((onedramSharedBase + firstOffset head) % 2 ^ 32) l ++ l' := by
    apply List.filter_eq_self.mpr
    apply List.length_filter_eq_length_iff.mp
    rw [List.length_append, length_placed]
    omega
  rw [hall] at h
  have hplace : ∀ i < n,
      (onedramSharedBase + firstOffset head) % 2 ^ 32 + i = inPlace (head + i) := by
    intro i hi
    have hget := congrArg (·[i]?) h
    have hbytes : bytes[i]? = some bytes[i] := List.getElem?_eq_getElem (by omega)
    have hl : l[i]? = some l[i] := List.getElem?_eq_getElem (by omega)
    have hin : i < (placed id ((onedramSharedBase + firstOffset head) % 2 ^ 32) l).length := by
      rw [length_placed]
      omega
    simp only [List.getElem?_append_left hin, getElem?_placed, hbytes, hl, Option.map_some, id_eq,
      Option.some.injEq, Prod.mk.injEq] at hget
    exact hget.1
  -- the first and the last byte bound the piece
  obtain rfl | hpos := Nat.eq_zero_or_pos n
  · exact .inl rfl
  · have hfirst := hplace 0 hpos
    have hlast := hplace (n - 1) (by omega)
    have hN : fmtInfo.inBuffSize = 0x1000 := rfl
    have hA : fmtInfo.inBuffAddr = 0xFF000 := rfl
    have hR : inRing = 0x350FF000 := rfl
    have hB : onedramSharedBase = 0x35000000 := rfl
    simp only [inPlace, firstOffset, hN, hA, hR, hB] at hfirst hlast
    omega

/-! ### Whole messages -/

/-- The copies of `onedram_write_fmt`. -/
def fmtCopy (b : Board) (s : Onedram) (buf : List Byte) : Onedram × Int :=
  onedramCopyFmt b s.shut buf (onedramReadInhead b s.shut) (onedramReadIntail b s.shut)

/-- The head it stores. -/
def fmtHead (b : Board) (s : Onedram) (buf : List Byte) : Nat :=
  toUint32 (onedramReadInhead b s.shut + (fmtCopy b s buf).2) % fmtInfo.inBuffSize

/-- The two states have the same memory. -/
structure SameShm (s s' : Onedram) : Prop where
  mem : s'.mem = s.mem
  log : s'.log = s.log
  overrun : s'.overrun = s.overrun

theorem onedramSendCmdToPda_same (s : Onedram) (val : Nat) :
    SameShm s (onedramSendCmdToPda s val) := by
  unfold onedramSendCmdToPda
  split_ifs
  · exact ⟨rfl, rfl, rfl⟩
  · exact ⟨rfl, rfl, rfl⟩

theorem onedramWriteFmtEnd_same (s : Onedram) (head tail len : Nat) (ret : Int) :
    SameShm s (onedramWriteFmtEnd s head tail len ret) := by
  unfold onedramWriteFmtEnd
  split_ifs
  · exact ⟨rfl, rfl, rfl⟩
  · have h := onedramSendCmdToPda_same (onedramEnableInterrupt (onedramPutAuthority s))
      (fmtIrqMask ret len)
    exact ⟨h.mem, h.log, h.overrun⟩

theorem onedramWriteFmt_eq (b : Board) (s : Onedram) (buf : List Byte) :
    (onedramWriteFmt b s buf).2 = (fmtCopy b s buf).2 ∧
      SameShm (onedramWriteInhead b (fmtCopy b s buf).1 (fmtHead b s buf))
        (onedramWriteFmt b s buf).1 :=
  ⟨rfl, onedramWriteFmtEnd_same _ _ _ _ _⟩

/-- The bytes of the head index do not count as data. -/
theorem dataWrites_writeFmt {w : List (Nat × Byte)} (h : (fmtCopy b s buf).1.log = s.log ++ w) :
    dataWrites s (onedramWriteFmt b s buf).1 = w.filter fun w => isInHead w.1 = false := by
  obtain ⟨l, hl, -, hlog⟩ := onedramWriteShm_log b (fmtCopy b s buf).1 (leBytes (fmtHead b s buf))
    fmtInfo.inHeadAddr fmtInfo.ptrSize
  have hfinal : (onedramWriteFmt b s buf).1.log = _ := (onedramWriteFmt_eq b s buf).2.log.trans hlog
  have hnone : (placed id ((onedramSharedBase + fmtInfo.inHeadAddr) % 2 ^ 32) l).filter
      (fun w => isInHead w.1 = false) = [] := by
    apply List.filter_eq_nil_iff.mpr
    intro a ha
    obtain ⟨j, hj, haj⟩ := mem_placed ha
    have hsize : fmtInfo.ptrSize = 4 := rfl
    have hin : isInHead a.1 = true := by
      rw [isInHead, decide_eq_true_eq, haj, shared_mod (by decide)]
      exact ⟨Nat.le_add_right .., Nat.add_lt_add_left (by omega) _⟩
    simp [hin]
  rw [dataWrites, hfinal, h, List.append_assoc, List.drop_left, List.filter_append, hnone,
    List.append_nil]

theorem fmtCopy_unlocked (hsem : s.sem = 0) (buf : List Byte) :
    fmtCopy b s buf = onedramCopyFmt b s.shut buf s.inHead s.inTail := by
  have hsem' : s.shut.sem = 0 := hsem
  rw [fmtCopy, onedramReadInhead, onedramReadIntail, onedramReadPtr_eq hsem' (by decide),
    onedramReadPtr_eq hsem' (by decide)]
  rfl

theorem fmtCopy_locked (hsem : s.sem ≠ 0) (buf : List Byte) :
    fmtCopy b s buf = (s.shut, toInt32 (min (fmtInfo.inBuffSize - 1) buf.length)) := by
  have hsem' : s.shut.sem ≠ 0 := hsem
  rw [fmtCopy, onedramReadInhead, onedramReadIntail, onedramReadPtr_locked hsem',
    onedramReadPtr_locked hsem', onedramCopyFmt_zero, onedramWriteShm_locked hsem']
  rfl

theorem inRing_not_inHead (i : Nat) (v : Byte) :
    isInHead ((inPlace i, v) : Nat × Byte).1 = false := by
  have hR : inRing = 0x350FF000 := rfl
  rw [isInHead, decide_eq_false_iff_not]
  rintro ⟨-, h⟩
  have hH : onedramSharedBase + fmtInfo.inHeadAddr + fmtInfo.ptrSize = 0x3500001C := rfl
  rw [hH, inPlace, hR] at h
  omega

theorem filter_placed (head : Nat) (l : List Byte) :
    (placed inPlace head l).filter (fun w => isInHead w.1 = false) = placed inPlace head l := by
  apply List.filter_eq_self.mpr
  intro w hw
  obtain ⟨j, -, hj⟩ := mem_placed hw
  rw [decide_eq_true_eq, hj]
  exact inRing_not_inHead _ 0

/-- Where the copies fit, the message is written well. -/
theorem writtenWell_of_fits (hsem : s.sem = 0) (hbuf : buf.length < 2 ^ 32)
    (h : buf.length = 0 ∨ CopyFits s.inHead s.inTail buf.length) :
    WrittenWell s buf (onedramWriteFmt b s buf).1 (onedramWriteFmt b s buf).2 := by
  have hcopy : CopiesWell s.shut buf s.inHead s.inTail (fmtCopy b s buf) := by
    rw [fmtCopy_unlocked hsem]
    exact onedramCopyFmt_fits (s := s.shut) hsem (s.ptr_lt _) hbuf h
  obtain ⟨n, hn, hret, hfree, hcopied⟩ := hcopy
  obtain ⟨hret', hshm⟩ := onedramWriteFmt_eq b s buf
  have hsem' : (fmtCopy b s buf).1.sem = 0 := hcopied.sem.trans hsem
  have hdata : dataWrites s (onedramWriteFmt b s buf).1 = placed inPlace s.inHead (buf.take n) :=
    (dataWrites_writeFmt hcopied.log).trans (filter_placed ..)
  have hwrite : onedramWriteInhead b (fmtCopy b s buf).1 (fmtHead b s buf) =
      (fmtCopy b s buf).1.store fmtInfo.inHeadAddr (leBytes (fmtHead b s buf)) :=
    onedramWritePtr_eq hsem' _ (by decide)
  have hhead : fmtHead b s buf = toUint32 (s.inHead + n) % fmtInfo.inBuffSize := by
    have hread : onedramReadInhead b s.shut = s.inHead :=
      onedramReadPtr_eq (s := s.shut) hsem (by decide)
    rw [fmtHead, hread, hret]
  have hN : fmtInfo.inBuffSize = 0x1000 := rfl
  -- each byte stands in the ring, before the tail
  have hplace : ∀ w ∈ dataWrites s (onedramWriteFmt b s buf).1,
      ∃ i < n, w.1 = inPlace (s.inHead + i) := by
    intro w hw
    rw [hdata] at hw
    obtain ⟨j, hj, hwj⟩ := mem_placed hw
    exact ⟨j, hj.trans_le (List.length_take_le ..), hwj⟩
  rw [hret', hret]
  refine ⟨?_, ?_, ?_, ?_, ⟨Int.natCast_nonneg n, Int.ofNat_le.mpr hn⟩, ?_⟩
  · intro w hw
    obtain ⟨i, -, hwi⟩ := hplace w hw
    rw [hwi]
    exact ⟨Nat.le_add_right .., Nat.add_lt_add_left (Nat.mod_lt _ (by decide)) _⟩
  · rw [hshm.overrun, hwrite]
    exact hcopied.overrun
  · intro w hw p hp hunread heq
    obtain ⟨i, hi, hwi⟩ := hplace w hw
    rw [hwi, inPlace, Nat.add_left_cancel_iff] at heq
    rw [← heq] at hunread
    exact hfree i hi hunread
  · have hptr : (onedramWriteFmt b s buf).1.inHead = fmtHead b s buf := by
      rw [Onedram.inHead, Onedram.ptr, hshm.mem, hwrite]
      refine Onedram.ptr_store _ _ ?_
      rw [hhead, hN]
      omega
    rw [hptr, hhead, hN, Int.ModEq]
    unfold toUint32
    omega
  · rw [hdata, Int.toNat_natCast]

/-- A message that is not empty is not written while the memory is not the modem's. -/
theorem locked_iff (hsem : s.sem ≠ 0) (buf : List Byte) :
    WrittenWell s buf (onedramWriteFmt b s buf).1 (onedramWriteFmt b s buf).2 ↔ buf = [] := by
  obtain ⟨hret, hshm⟩ := onedramWriteFmt_eq b s buf
  have hcopy := fmtCopy_locked (b := b) hsem buf
  have hdata : dataWrites s (onedramWriteFmt b s buf).1 = [] := by
    refine dataWrites_writeFmt (w := []) ?_
    rw [hcopy, List.append_nil]
    rfl
  rw [hcopy] at hret
  have hN : fmtInfo.inBuffSize = 0x1000 := rfl
  -- without the semaphore nothing is written, which is right of an empty message only
  constructor
  · intro h
    have hbytes := congrArg List.length h.bytes
    rw [hdata, length_placed, List.length_take, hret, toInt32_of_lt (by omega),
      Int.toNat_natCast] at hbytes
    apply List.eq_nil_of_length_eq_zero
    have hbytes : 0 = min (min (fmtInfo.inBuffSize - 1) buf.length) buf.length := hbytes
    omega
  · rintro rfl
    have hwrite : onedramWriteInhead b (fmtCopy b s []).1 (fmtHead b s []) = s.shut := by
      rw [hcopy]
      exact onedramWriteShm_locked (s := s.shut) hsem _ _ _
    rw [hwrite] at hshm
    rw [hret]
    refine ⟨?_, hshm.overrun, ?_, ?_, ⟨le_refl _, le_refl _⟩, hdata⟩
    · rw [hdata]
      exact fun w hw => nomatch hw
    · rw [hdata]
      exact fun w hw => nomatch hw
    · have hptr : (onedramWriteFmt b s []).1.inHead = s.inHead := by
        rw [Onedram.inHead, Onedram.ptr, hshm.mem]
        rfl
      rw [hptr]
      exact (Int.add_zero _).symm ▸ Int.ModEq.refl _

/-- If the message is written well, then the copies fit. -/
theorem fits_of_writtenWell (hsem : s.sem = 0) (hbuf : buf.length < 2 ^ 32)
    (h : WrittenWell s buf (onedramWriteFmt b s buf).1 (onedramWriteFmt b s buf).2) :
    buf.length = 0 ∨ CopyFits s.inHead s.inTail buf.length := by
  obtain ⟨m, ⟨l, l', hl, hl', hlog⟩, hcount⟩ :=
    onedramCopyFmt_stores b s.shut s.inHead s.inTail hbuf
  rw [← fmtCopy_unlocked hsem] at hlog hcount
  have hret := (onedramWriteFmt_eq b s buf).1
  rw [← hret] at hcount
  have hcount := hcount h.count.1
  have hdata := (dataWrites_writeFmt hlog).symm.trans h.bytes
  refine copyFits_of_firstSize (s.ptr_lt _) (firstPiece_inside (s.ptr_lt _) hl hl' ?_ hdata)
  have hle := h.count.2
  rw [List.length_take, hcount]
  rw [hcount] at hle
  omega

/-- **A message is written well** exactly if it is empty, or if the memory is the modem's and the
    indexes are such that the copies stay inside the ring. -/
theorem onedramWriteFmt_iff (b : Board) (s : Onedram) (buf : List Byte)
    (hbuf : buf.length < 2 ^ 32) :
    WrittenWell s buf (onedramWriteFmt b s buf).1 (onedramWriteFmt b s buf).2 ↔
      buf = [] ∨ (s.sem = 0 ∧ CopyFits s.inHead s.inTail buf.length) := by
  by_cases hsem : s.sem = 0
  · constructor
    · intro h
      obtain h | h := fits_of_writtenWell hsem hbuf h
      · exact .inl (List.eq_nil_of_length_eq_zero h)
      · exact .inr ⟨hsem, h⟩
    · intro h
      refine writtenWell_of_fits hsem hbuf ?_
      obtain rfl | h := h
      · exact .inl rfl
      · exact .inr h.2
  · rw [locked_iff hsem]
    constructor
    · exact .inl
    · intro h
      obtain h | h := h
      · exact h
      · exact absurd h.1 hsem

/-- A message that wraps around the end of the ring. -/
theorem onedramWriteFmt_iff_wraps :
    WrittenWell (.indexed fmtInfo.inHeadAddr 0xFFF 0x10) [1, 2, 3]
      (onedramWriteFmt .ram (.indexed fmtInfo.inHeadAddr 0xFFF 0x10) [1, 2, 3]).1
      (onedramWriteFmt .ram (.indexed fmtInfo.inHeadAddr 0xFFF 0x10) [1, 2, 3]).2 :=
  (onedramWriteFmt_iff .ram (.indexed fmtInfo.inHeadAddr 0xFFF 0x10) [1, 2, 3] (by decide)).mpr
    (.inr ⟨rfl, by decide⟩)

/-- A head at the end of the ring: the byte goes behind it. -/
theorem onedramWriteFmt_outside :
    ¬WrittenWell (.indexed fmtInfo.inHeadAddr 0x1000 0) [7]
      (onedramWriteFmt .ram (.indexed fmtInfo.inHeadAddr 0x1000 0) [7]).1
      (onedramWriteFmt .ram (.indexed fmtInfo.inHeadAddr 0x1000 0) [7]).2 := by
  intro h
  have hfits := fits_of_writtenWell rfl (by decide) h
  revert hfits
  decide

end Qemu.Hw
