import Qemu.Hw.Mmc

namespace Qemu.Hw

open Lib

/-!
# Blocks of the MMC controller

* `mmcBytes_read`, `mmcBytes_write` — the bytes of a block, in words;
* `mmcBlocks_eq` — the loop is a run of blocks, and stops at the boundary if it hits it exactly;
* `mmcRun_read`, `mmcRun_write` — what such a run moves, if its blocks fit the words.
-/

/-! ### Words -/

theorem getLsbD_wordByte (value : BitVec 32) (i j : Nat) :
    (wordByte value i).getLsbD j = (decide (j < 8) && value.getLsbD (8 * i + j)) := by
  simp [wordByte]

variable {i : Nat}

/-- A byte that is put into a word. -/
theorem wordByte_or_shift (value : BitVec 32) (x : Byte) {n : Nat} (hi : i < 4) :
    wordByte (value ||| x.setWidth 32 <<< (n * 8)) i =
      wordByte value i ||| if i = n then x else 0 := by
  ext j hj
  rw [← BitVec.getLsbD_eq_getElem, ← BitVec.getLsbD_eq_getElem, BitVec.getLsbD_or,
    getLsbD_wordByte, getLsbD_wordByte, BitVec.getLsbD_or, BitVec.getLsbD_shiftLeft,
    BitVec.getLsbD_setWidth]
  have hin : 8 * i + j < 32 := by omega
  rcases lt_trichotomy i n with hlt | rfl | hgt
  · have hbelow : 8 * i + j < n * 8 := by omega
    simp [hj, hin, hbelow, hlt.ne]
  · have hplace : 8 * i + j - i * 8 = j := by omega
    have habove : ¬8 * i + j < i * 8 := by omega
    have hj' : j < 32 := by omega
    simp [hj, hin, hplace, habove, hj']
  · have habove : x.getLsbD (8 * i + j - n * 8) = false :=
      BitVec.getLsbD_of_ge x _ (by omega)
    simp [hj, habove, hgt.ne']

/-- Four bytes that are put into an empty word. -/
def packWord (x : Nat → Byte) : BitVec 32 :=
  (0 : BitVec 32) ||| (x 0).setWidth 32 <<< (0 * 8) ||| (x 1).setWidth 32 <<< (1 * 8) |||
    (x 2).setWidth 32 <<< (2 * 8) ||| (x 3).setWidth 32 <<< (3 * 8)

theorem wordByte_packWord (x : Nat → Byte) (hi : i < 4) : wordByte (packWord x) i = x i := by
  have hzero : wordByte 0 i = 0 := by simp [wordByte]
  unfold packWord
  rw [wordByte_or_shift _ _ hi, wordByte_or_shift _ _ hi, wordByte_or_shift _ _ hi,
    wordByte_or_shift _ _ hi, hzero]
  interval_cases i <;> simp

/-- The bytes of a word from memory. -/
theorem wordByte_pop (s : Mmc) (pos : BitVec 32) (hi : i < 4) :
    wordByte (mmcFifoPop s pos) i = s.mem (s.sysad + pos + BitVec.ofNat 32 i) := by
  unfold mmcFifoPop
  ext j hj
  rw [← BitVec.getLsbD_eq_getElem, getLsbD_wordByte, ← BitVec.getLsbD_eq_getElem]
  simp only [BitVec.getLsbD_append, hj, decide_true, Bool.true_and]
  interval_cases i
  · simp [hj]
  · simp [hj, show ¬8 * 1 + j < 8 by omega, show 8 * 1 + j - 8 = j by omega]
  · simp [hj, show ¬8 * 2 + j < 8 by omega, show ¬8 * 2 + j - 8 < 8 by omega,
      show 8 * 2 + j - 8 - 8 = j by omega]
  · simp [show ¬8 * 3 + j < 8 by omega, show ¬8 * 3 + j - 8 < 8 by omega,
      show ¬8 * 3 + j - 8 - 8 < 8 by omega, show 8 * 3 + j - 8 - 8 - 8 = j by omega]

/-- The shift of the loop makes the next byte the first one. -/
def ShiftsBytes (shift : BitVec 32 → BitVec 32) : Prop :=
  ∀ value, ∀ i < 3, wordByte (shift value) i = wordByte value (i + 1)

theorem ushiftRight_shifts : ShiftsBytes (· >>> 8) := by
  intro value i _
  ext j hj
  rw [← BitVec.getLsbD_eq_getElem, ← BitVec.getLsbD_eq_getElem, getLsbD_wordByte,
    getLsbD_wordByte, BitVec.getLsbD_ushiftRight]
  congr 2
  omega

theorem sshiftRight_shifts : ShiftsBytes (BitVec.sshiftRight · 8) := by
  intro value i hi
  ext j hj
  rw [← BitVec.getLsbD_eq_getElem, ← BitVec.getLsbD_eq_getElem, getLsbD_wordByte,
    getLsbD_wordByte, BitVec.getLsbD_sshiftRight]
  have hin : 8 + (8 * i + j) < 32 := by omega
  have hout : ¬32 ≤ 8 * i + j := by omega
  have hplace : 8 + (8 * i + j) = 8 * (i + 1) + j := by omega
  rw [if_pos hin, hplace]
  simp [hout]

theorem setWidth_and_ff (value : BitVec 32) :
    (value &&& 0xff).setWidth 8 = wordByte value 0 := by
  ext j hj
  rw [← BitVec.getLsbD_eq_getElem, ← BitVec.getLsbD_eq_getElem, getLsbD_wordByte]
  interval_cases j <;> simp

/-! ### Reads -/

@[simp] theorem length_nextBytes (input : Nat → Byte) (taken n : Nat) :
    (nextBytes input taken n).length = n := by
  simp [nextBytes]

theorem nextBytes_add (input : Nat → Byte) (taken m n : Nat) :
    nextBytes input taken (m + n) = nextBytes input taken m ++ nextBytes input (taken + m) n := by
  unfold nextBytes
  rw [List.range_add, List.map_append, List.map_map]
  simp only [Function.comp_def, Nat.add_assoc]

/-- Bytes of the card are stored, and the address goes on. -/
def Mmc.stored (s : Mmc) (addr : BitVec 32) (n : Nat) : Mmc :=
  { s with
    card := { s.card with taken := s.card.taken + n }
    mem := memStore s.mem addr (nextBytes s.card.input s.card.taken n) }

/-- Two stores, one behind the other. -/
theorem Mmc.stored_stored (s : Mmc) (addr : BitVec 32) {m n : Nat} (h : m + n ≤ 2 ^ 32) :
    (s.stored addr m).stored (addr + BitVec.ofNat 32 m) n = s.stored addr (m + n) := by
  have hlen : (nextBytes s.card.input s.card.taken m).length = m := length_nextBytes _ _ _
  have hfit : (nextBytes s.card.input s.card.taken m).length +
      (nextBytes s.card.input (s.card.taken + m) n).length ≤ 2 ^ 32 := by
    rw [length_nextBytes, length_nextBytes]
    exact h
  have hmem : memStore (memStore s.mem addr _) (addr + _) _ = _ := memStore_append hfit
  rw [hlen, ← nextBytes_add] at hmem
  unfold Mmc.stored
  dsimp only
  rw [hmem, Nat.add_assoc]

/-- Four bytes from an empty word are a word. -/
theorem mmcBytes_readWord (shift : BitVec 32 → BitVec 32) (s : Mmc) (datacnt : Nat)
    (pos : BitVec 32) :
    mmcBytes shift true (datacnt + 4) s ⟨0, 0, pos⟩ =
      mmcBytes shift true datacnt (s.stored (s.sysad + pos) 4) ⟨0, 0, pos + 4⟩ := by
  have hbytes : (List.range 4).map (wordByte (packWord fun i => s.card.input (s.card.taken + i))) =
      nextBytes s.card.input s.card.taken 4 :=
    List.map_congr_left fun i hi => wordByte_packWord _ (List.mem_range.mp hi)
  unfold Mmc.stored
  rw [← hbytes]
  rfl

/-- Whole words are stored as they come. -/
theorem mmcBytes_read (shift : BitVec 32 → BitVec 32) (s : Mmc) {q : Nat} (hq : 4 * q ≤ 2 ^ 32)
    (pos : BitVec 32) :
    mmcBytes shift true (4 * q) s ⟨0, 0, pos⟩ =
      (s.stored (s.sysad + pos) (4 * q), ⟨0, 0, pos + BitVec.ofNat 32 (4 * q)⟩) := by
  induction q generalizing s pos with
  | zero =>
    have hpos : pos + BitVec.ofNat 32 (4 * 0) = pos := BitVec.add_zero pos
    rw [hpos]
    rfl
  | succ q ih =>
    have hsum : 4 * (q + 1) = 4 * q + 4 := by omega
    have haddr : s.sysad + (pos + 4) = s.sysad + pos + BitVec.ofNat 32 4 := by
      rw [BitVec.add_assoc]
      rfl
    rw [hsum, mmcBytes_readWord, ih _ (by omega)]
    show (Mmc.stored _ (s.sysad + (pos + 4)) _, _) = _
    rw [haddr, Mmc.stored_stored _ _ (by omega), Nat.add_comm 4, BitVec.add_assoc,
      BitVec.ofNat_add, BitVec.add_comm (BitVec.ofNat 32 (4 * q))]
    rfl

/-! ### Writes -/

/-- The card takes bytes. -/
def Mmc.handed (s : Mmc) (bytes : List Byte) : Mmc :=
  { s with card := { s.card with output := s.card.output ++ bytes } }

theorem Mmc.handed_handed (s : Mmc) (xs ys : List Byte) :
    (s.handed xs).handed ys = s.handed (xs ++ ys) := by
  unfold Mmc.handed
  dsimp only
  rw [List.append_assoc]

/-- A word holds bytes of the memory. -/
def MmcWord.Holds (w : MmcWord) (mem : BitVec 32 → Byte) (addr : BitVec 32) : Prop :=
  w.n ≤ 3 ∧ ∀ i < w.n, wordByte w.value i = mem (addr + BitVec.ofNat 32 i)

theorem ofNat_succ_add (addr : BitVec 32) (i : Nat) :
    addr + 1 + BitVec.ofNat 32 i = addr + BitVec.ofNat 32 (i + 1) := by
  rw [Nat.add_comm i, BitVec.ofNat_add, BitVec.add_assoc]
  rfl

variable {s : Mmc} {shift : BitVec 32 → BitVec 32} {w : MmcWord}

/-- A byte out of a word that holds it, or out of the next word. -/
theorem mmcWriteByte_spec (hshift : ShiftsBytes shift) {addr : BitVec 32}
    (hw : w.Holds s.mem addr) (hpop : w.n = 0 → s.sysad + w.pos = addr) :
    (mmcWriteByte shift s w).1 = s.handed [s.mem addr] ∧
      (mmcWriteByte shift s w).2.Holds s.mem (addr + 1) ∧
      (mmcWriteByte shift s w).2.n = (if w.n = 0 then 3 else w.n - 1) ∧
      (mmcWriteByte shift s w).2.pos = (if w.n = 0 then w.pos + 4 else w.pos) := by
  obtain ⟨hn, hbytes⟩ := hw
  have haddr : addr + BitVec.ofNat 32 0 = addr := BitVec.add_zero addr
  unfold mmcWriteByte mmcRefill
  dsimp only
  rw [setWidth_and_ff]
  by_cases hzero : w.n = 0
  · rw [if_pos hzero, if_pos hzero, if_pos hzero]
    have hbyte : ∀ i < 4, wordByte (mmcFifoPop s w.pos) i = s.mem (addr + BitVec.ofNat 32 i) := by
      intro i hi
      rw [wordByte_pop s w.pos hi, hpop hzero]
    refine ⟨?_, ⟨Nat.le_refl 3, fun i hi => ?_⟩, rfl, rfl⟩
    · dsimp only
      rw [hbyte 0 (by decide), haddr]
      rfl
    · have hi' : i < 3 := hi
      rw [ofNat_succ_add, hshift _ i hi']
      exact hbyte (i + 1) (by omega)
  · rw [if_neg hzero, if_neg hzero, if_neg hzero]
    have hlow := hbytes 0 (Nat.pos_of_ne_zero hzero)
    refine ⟨?_, ⟨Nat.le_trans (Nat.sub_le _ _) hn, fun i hi => ?_⟩, rfl, rfl⟩
    · rw [hlow, haddr]
      rfl
    · have hi' : i < w.n - 1 := hi
      rw [ofNat_succ_add, hshift _ i (by omega)]
      exact hbytes (i + 1) (by omega)

/-- The bytes of a block; `addr` is where the next byte is, and the word holds what comes first. -/
theorem mmcBytes_write (hshift : ShiftsBytes shift) {addr : BitVec 32} (hw : w.Holds s.mem addr)
    (datacnt : Nat) (hpop : w.n < datacnt → s.sysad + w.pos = addr + BitVec.ofNat 32 w.n) :
    ∃ w', mmcBytes shift false datacnt s w = (s.handed (memBytes s.mem addr datacnt), w') ∧
      w'.Holds s.mem (addr + BitVec.ofNat 32 datacnt) ∧ (w'.n + datacnt) % 4 = w.n % 4 := by
  -- on the bytes that are left; the next word is loaded when one is used up
  induction datacnt generalizing s w addr with
  | zero =>
    have haddr : addr + BitVec.ofNat 32 0 = addr := BitVec.add_zero addr
    refine ⟨w, ?_, by rwa [haddr], rfl⟩
    show (s, w) = (s.handed [], w)
    unfold Mmc.handed
    rw [List.append_nil]
  | succ datacnt ih =>
    have haddr : addr + BitVec.ofNat 32 0 = addr := BitVec.add_zero addr
    have hfirst : w.n = 0 → s.sysad + w.pos = addr := by
      intro hzero
      rw [hpop (by omega), hzero, haddr]
    obtain ⟨hs, hw', hn, hpos⟩ := mmcWriteByte_spec hshift hw hfirst
    have hnext : (mmcWriteByte shift s w).2.n < datacnt →
        (mmcWriteByte shift s w).1.sysad + (mmcWriteByte shift s w).2.pos =
          addr + 1 + BitVec.ofNat 32 (mmcWriteByte shift s w).2.n := by
      intro hlt
      rw [hs, hn, hpos] at *
      show s.sysad + _ = _
      split_ifs at hlt ⊢ with hzero
      · rw [← BitVec.add_assoc, hfirst hzero, ofNat_succ_add]
        rfl
      · rw [hpop (by omega), ofNat_succ_add, Nat.sub_add_cancel (Nat.pos_of_ne_zero hzero)]
    have hw₁ : (mmcWriteByte shift s w).2.Holds (mmcWriteByte shift s w).1.mem (addr + 1) := by
      rw [hs]
      exact hw'
    obtain ⟨w', hbytes, hholds, hmod⟩ := ih hw₁ hnext
    rw [hs] at hbytes hholds
    refine ⟨w', ?_, ?_, ?_⟩
    · show mmcBytes shift false datacnt (mmcWriteByte shift s w).1 (mmcWriteByte shift s w).2 = _
      rw [hs, hbytes, Mmc.handed_handed, memBytes_succ]
      rfl
    · rw [← ofNat_succ_add]
      exact hholds
    · rw [hn] at hmod
      split_ifs at hmod <;> omega

/-! ### Runs of blocks -/

/-- Blocks in a row. -/
def mmcRun (shift : BitVec 32 → BitVec 32) (isRead : Bool) (size : Nat) :
    Nat → Mmc → MmcWord → Mmc × MmcWord
  | 0, s, w => (s, w)
  | blocks + 1, s, w =>
    let r := mmcBlock shift isRead size s w
    mmcRun shift isRead size blocks r.1 r.2

/-- How many blocks the loop transfers, from the distance that is left to the boundary; behind the
    boundary the countdown is negative. -/
def stopAfter (dma : Bool) (size : Nat) : Nat → Int → Nat
  | 0, _ => 0
  | left + 1, dist => if dist = size ∧ dma then 1 else stopAfter dma size left (dist - size) + 1

variable {left size : Nat}

/-- The loop stops at a boundary between blocks. -/
theorem stopAfter_hit (hsize : 0 < size) (hi : 1 ≤ i) (hle : i ≤ left) :
    stopAfter true size left (i * size : Nat) = i := by
  induction left generalizing i with
  | zero => omega
  | succ left ih =>
    unfold stopAfter
    rcases Nat.eq_or_lt_of_le hi with rfl | hlt
    · simp
    · have hne : ¬(((i * size : Nat) : Int) = size ∧ true = true) := by
        rintro ⟨heq, -⟩
        have hmul : i * size = 1 * size := by omega
        have := Nat.eq_of_mul_eq_mul_right hsize hmul
        omega
      have hprev : ((i * size : Nat) : Int) - size = ((i - 1) * size : Nat) := by
        rw [Nat.sub_mul]
        have : 1 * size ≤ i * size := Nat.mul_le_mul_right size hi
        omega
      rw [if_neg hne, hprev, ih (by omega) (by omega)]
      omega

variable {dist : Int}

theorem stopAfter_miss {dma : Bool}
    (h : dma = true → ∀ i, 1 ≤ i → i ≤ left → dist ≠ (i * size : Nat)) :
    stopAfter dma size left dist = left := by
  induction left generalizing dist with
  | zero => rfl
  | succ left ih =>
    unfold stopAfter
    have hne : ¬(dist = size ∧ dma = true) := by
      rintro ⟨heq, hdma⟩
      exact h hdma 1 (by omega) (by omega) (by rw [Nat.one_mul]; exact heq)
    rw [if_neg hne, ih]
    intro hdma i hi hle heq
    refine h hdma (i + 1) (by omega) (by omega) ?_
    rw [Nat.succ_mul]
    omega

theorem ofInt_eq_zero_iff (hlow : -2 ^ 32 < dist) (hhigh : dist < 2 ^ 32) :
    BitVec.ofInt 32 dist = 0 ↔ dist = 0 := by
  constructor
  · intro h
    have hint := congrArg BitVec.toNat h
    rw [BitVec.toNat_ofInt] at hint
    change (dist % (2 ^ 32 : Nat)).toNat = 0 at hint
    omega
  · rintro rfl
    rfl

/-- The loop over the blocks is a run up to where it stops. -/
theorem mmcBlocks_eq (shift : BitVec 32 → BitVec 32) (isRead dma : Bool)
    (hlow : -2 ^ 32 < dist - (left * size : Nat)) (hhigh : dist < 2 ^ 32) (s : Mmc) (w : MmcWord) :
    mmcBlocks shift isRead dma size left (BitVec.ofInt 32 dist) s w =
      ((mmcRun shift isRead size (stopAfter dma size left dist) s w).1,
        left - stopAfter dma size left dist) := by
  induction left generalizing dist s w with
  | zero => rfl
  | succ left ih =>
    have hmul : (left + 1) * size = left * size + size := Nat.succ_mul left size
    have hcount : BitVec.ofInt 32 dist - BitVec.ofNat 32 size = BitVec.ofInt 32 (dist - size) := by
      rw [Int.sub_eq_add_neg, BitVec.ofInt_add, BitVec.ofInt_neg, BitVec.sub_eq_add_neg,
        BitVec.ofInt_natCast]
    have hzero : BitVec.ofInt 32 (dist - size) = 0 ↔ dist = size := by
      rw [ofInt_eq_zero_iff (by omega) (by omega)]
      omega
    unfold mmcBlocks stopAfter
    dsimp only
    simp only [hcount, hzero]
    split_ifs
    · rfl
    · rw [ih (by omega) (by omega), Nat.add_sub_add_right]
      rfl

/-- The address behind a block. -/
def Mmc.advance (s : Mmc) (bytes : Nat) : Mmc :=
  { s with sysad := s.sysad + BitVec.ofNat 32 bytes }

theorem Mmc.advance_zero (s : Mmc) : s.advance 0 = s := by
  have haddr : s.sysad + BitVec.ofNat 32 0 = s.sysad := BitVec.add_zero s.sysad
  unfold Mmc.advance
  rw [haddr]

theorem mmcBlock_eq {shift : BitVec 32 → BitVec 32} {isRead : Bool} {size : Nat} {s s' : Mmc}
    {w w' : MmcWord} (h : mmcBytes shift isRead size s { w with pos := 0 } = (s', w')) :
    mmcBlock shift isRead size s w = (s'.advance size, w') := by
  unfold mmcBlock
  dsimp only
  rw [h]
  rfl

theorem mmcRun_block {isRead : Bool} {s' : Mmc} {w' : MmcWord}
    (h : mmcBlock shift isRead size s w = (s', w')) (blocks : Nat) :
    mmcRun shift isRead size (blocks + 1) s w = mmcRun shift isRead size blocks s' w' := by
  unfold mmcRun
  dsimp only
  rw [h]
  cases blocks <;> rfl

/-- What a run leaves: the registers and what the card is about to give. -/
def Mmc.moved (s : Mmc) (mem : BitVec 32 → Byte) (taken : Nat) (output : List Byte) (bytes : Nat) :
    Mmc :=
  { s with
    mem := mem
    card := { s.card with taken := taken, output := output }
    sysad := s.sysad + BitVec.ofNat 32 bytes }

theorem Mmc.moved_zero (s : Mmc) : s.moved s.mem s.card.taken s.card.output 0 = s := by
  have haddr : s.sysad + BitVec.ofNat 32 0 = s.sysad := BitVec.add_zero s.sysad
  unfold Mmc.moved
  rw [haddr]

theorem Mmc.moved_moved (s : Mmc) (mem mem' : BitVec 32 → Byte) (taken taken' : Nat)
    (output output' : List Byte) (m n : Nat) :
    (s.moved mem taken output m).moved mem' taken' output' n =
      s.moved mem' taken' output' (m + n) := by
  unfold Mmc.moved
  dsimp only
  rw [BitVec.add_assoc, ← BitVec.ofNat_add]

/-- A byte moves no register. -/
theorem mmcBytes_frame (shift : BitVec 32 → BitVec 32) (isRead : Bool) (datacnt : Nat) (s : Mmc)
    (w : MmcWord) :
    ∃ mem taken output,
      (mmcBytes shift isRead datacnt s w).1 = s.moved mem taken output 0 := by
  induction datacnt generalizing s w with
  | zero => exact ⟨_, _, _, s.moved_zero.symm⟩
  | succ datacnt ih =>
    have hbyte : ∃ mem taken output,
        (if isRead then mmcReadByte s w else mmcWriteByte shift s w).1 =
          s.moved mem taken output 0 := by
      have haddr : s.sysad + BitVec.ofNat 32 0 = s.sysad := BitVec.add_zero s.sysad
      unfold Mmc.moved
      rw [haddr]
      cases isRead with
      | true =>
        rw [if_pos rfl]
        unfold mmcReadByte
        dsimp only
        split_ifs <;> exact ⟨_, _, _, rfl⟩
      | false => exact ⟨_, _, _, rfl⟩
    obtain ⟨mem, taken, output, hs⟩ := hbyte
    obtain ⟨mem', taken', output', hrest⟩ := ih
      (if isRead then mmcReadByte s w else mmcWriteByte shift s w).1
      (if isRead then mmcReadByte s w else mmcWriteByte shift s w).2
    refine ⟨mem', taken', output', hrest.trans ?_⟩
    rw [hs, Mmc.moved_moved]

/-- A run changes the memory, the card and the address only. -/
theorem mmcRun_frame (shift : BitVec 32 → BitVec 32) (isRead : Bool) (size blocks : Nat) (s : Mmc)
    (w : MmcWord) :
    ∃ mem taken output,
      (mmcRun shift isRead size blocks s w).1 = s.moved mem taken output (blocks * size) := by
  induction blocks generalizing s w with
  | zero =>
    rw [Nat.zero_mul]
    exact ⟨_, _, _, s.moved_zero.symm⟩
  | succ blocks ih =>
    obtain ⟨mem, taken, output, hs⟩ := mmcBytes_frame shift isRead size s { w with pos := 0 }
    have hblock : (mmcBlock shift isRead size s w).1 = s.moved mem taken output size := by
      rw [mmcBlock_eq (Prod.mk.eta).symm, hs]
      show (s.moved mem taken output 0).moved mem taken output size = _
      rw [Mmc.moved_moved, Nat.zero_add]
    obtain ⟨mem', taken', output', hrest⟩ :=
      ih (mmcBlock shift isRead size s w).1 (mmcBlock shift isRead size s w).2
    refine ⟨mem', taken', output', hrest.trans ?_⟩
    rw [hblock, Mmc.moved_moved, Nat.succ_mul, Nat.add_comm size]

/-- A run of whole words stores the bytes of the card. -/
theorem mmcRun_read (shift : BitVec 32 → BitVec 32) (hsize : 4 ∣ size) (blocks : Nat)
    (hfit : blocks * size ≤ 2 ^ 32) (s : Mmc) (pos : BitVec 32) :
    (mmcRun shift true size blocks s ⟨0, 0, pos⟩).1 =
      (s.stored s.sysad (blocks * size)).advance (blocks * size) := by
  obtain ⟨q, rfl⟩ := hsize
  induction blocks generalizing s pos with
  | zero =>
    rw [Nat.zero_mul, Mmc.advance_zero]
    rfl
  | succ blocks ih =>
    have hsum : (blocks + 1) * (4 * q) = 4 * q + blocks * (4 * q) := by
      rw [Nat.succ_mul, Nat.add_comm]
    have hpos : s.sysad + 0 = s.sysad := BitVec.add_zero s.sysad
    have hblock := mmcBlock_eq (w := ⟨0, 0, pos⟩) (mmcBytes_read shift s (q := q) (by omega) 0)
    rw [hpos] at hblock
    have hall := Mmc.stored_stored s s.sysad (m := 4 * q) (n := blocks * (4 * q)) (by omega)
    rw [mmcRun_block hblock, ih _ _ (by omega), hsum, ← hall]
    unfold Mmc.advance
    rw [BitVec.ofNat_add, ← BitVec.add_assoc]
    rfl

/-- A run hands over the bytes of the memory, if no block starts with a part of a word that does not
    hold it whole. -/
theorem mmcRun_write (hshift : ShiftsBytes shift) {blocks : Nat} (hw : w.Holds s.mem s.sysad)
    (hpack : 4 ∣ size ∧ w.n = 0 ∨ size ∣ 4 ∧ size ∣ w.n ∨ blocks = 0 ∨ blocks = 1 ∧ w.n = 0) :
    (mmcRun shift false size blocks s w).1 =
      (s.handed (memBytes s.mem s.sysad (blocks * size))).advance (blocks * size) := by
  induction blocks generalizing s w with
  | zero =>
    rw [Nat.zero_mul, Mmc.advance_zero]
    show s = s.handed []
    unfold Mmc.handed
    rw [List.append_nil]
  | succ blocks ih =>
    have hsum : (blocks + 1) * size = size + blocks * size := by
      rw [Nat.succ_mul, Nat.add_comm]
    have hfirst : w.n < size → s.sysad + 0 = s.sysad + BitVec.ofNat 32 w.n := by
      intro hlt
      have hzero : w.n = 0 := by
        rcases hpack with ⟨-, hn⟩ | ⟨-, hn⟩ | hnone | ⟨-, hn⟩
        · exact hn
        · exact Nat.eq_zero_of_dvd_of_lt hn hlt
        · exact absurd hnone (Nat.succ_ne_zero blocks)
        · exact hn
      rw [hzero]
      rfl
    obtain ⟨w', hbytes, hholds, hmod⟩ := mmcBytes_write hshift (w := { w with pos := 0 }) hw size
      hfirst
    have hmod : (w'.n + size) % 4 = w.n % 4 := hmod
    have hn' : w'.n ≤ 3 := hholds.1
    -- the word is empty again at the end of a block, or blocks divide words
    have hpack' :
        4 ∣ size ∧ w'.n = 0 ∨ size ∣ 4 ∧ size ∣ w'.n ∨ blocks = 0 ∨ blocks = 1 ∧ w'.n = 0 := by
      rcases hpack with ⟨hsize, hn⟩ | ⟨hsize, hn⟩ | hnone | ⟨hone, -⟩
      · exact .inl ⟨hsize, by omega⟩
      · refine .inr (.inl ⟨hsize, ?_⟩)
        have hdvd : size ∣ (w'.n + size) % 4 := by
          rw [hmod]
          exact (Nat.dvd_mod_iff hsize).mpr hn
        exact (Nat.dvd_add_left (Nat.dvd_refl size)).mp ((Nat.dvd_mod_iff hsize).mp hdvd)
      · exact absurd hnone (Nat.succ_ne_zero blocks)
      · exact .inr (.inr (.inl (Nat.succ.inj hone)))
    have hblock := mmcBlock_eq hbytes
    have hrest := ih (s := (s.handed (memBytes s.mem s.sysad size)).advance size) hholds hpack'
    rw [mmcRun_block hblock, hrest, hsum, memBytes_add, ← Mmc.handed_handed]
    unfold Mmc.advance
    rw [BitVec.ofNat_add, ← BitVec.add_assoc]
    rfl

end Qemu.Hw
