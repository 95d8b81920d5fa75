import Qemu.Hw.MmcCalls

namespace Qemu.Hw

open Lib

/-!
# Words that are carried over a block

The loop keeps the bytes of a word that is not full, or not empty, when a block ends, but the next
block starts at its own address.

* `mmcRun_read_loses` — a read leaves a byte of its first block unwritten;
* `mmcRun_write_repeats` — a write hands over the start of its second block twice;
* `mmc_transfers` — a multi-block transfer is right for every content of the memory and the card
  exactly if it packs its words and hits the boundary.
-/

/-! ### Reads -/

theorem mmcReadByte_cases (s : Mmc) (w : MmcWord) :
    (w.n = 3 ∧ ∃ card value, mmcReadByte s w =
      (mmcFifoPush { s with card := card } w.pos value, ⟨0, 0, w.pos + 4⟩)) ∨
    (w.n ≠ 3 ∧ ∃ card value, mmcReadByte s w =
      ({ s with card := card }, ⟨value, w.n + 1, w.pos⟩)) := by
  unfold mmcReadByte
  dsimp only
  split_ifs with hfull
  · exact .inl ⟨by omega, _, _, rfl⟩
  · exact .inr ⟨by omega, _, _, rfl⟩

variable {s : Mmc} {w : MmcWord}

/-- The bytes of a block are stored in whole words. -/
theorem mmcBytes_read_other (shift : BitVec 32 → BitVec 32) {datacnt : Nat} {a : BitVec 32}
    (hn : w.n ≤ 3) (ha : 4 * ((w.n + datacnt) / 4) ≤ (a - (s.sysad + w.pos)).toNat) :
    (mmcBytes shift true datacnt s w).1.mem a = s.mem a ∧
      (mmcBytes shift true datacnt s w).2.n ≤ 3 := by
  induction datacnt generalizing s w with
  | zero => exact ⟨rfl, hn⟩
  | succ datacnt ih =>
    show (mmcBytes shift true datacnt (mmcReadByte s w).1 (mmcReadByte s w).2).1.mem a = _ ∧
      (mmcBytes shift true datacnt (mmcReadByte s w).1 (mmcReadByte s w).2).2.n ≤ 3
    rcases mmcReadByte_cases s w with ⟨hfull, card, value, hbyte⟩ | ⟨hfull, card, value, hbyte⟩
    · have hdist := toNat_sub_ofNat a (s.sysad + w.pos) (m := 4) (by decide)
      have hfour : 4 ≤ (a - (s.sysad + w.pos)).toNat := by omega
      have haddr : s.sysad + (w.pos + 4) = s.sysad + w.pos + BitVec.ofNat 32 4 := by
        rw [BitVec.add_assoc]
        rfl
      rw [if_pos hfour, ← haddr] at hdist
      obtain ⟨hmem, hn'⟩ := ih (s := mmcFifoPush { s with card := card } w.pos value)
        (w := ⟨0, 0, w.pos + 4⟩) (Nat.zero_le 3)
        (show 4 * ((0 + datacnt) / 4) ≤ (a - (s.sysad + (w.pos + 4))).toNat by omega)
      have hpush : (mmcFifoPush { s with card := card } w.pos value).mem a = s.mem a :=
        memStore_other hfour
      rw [hbyte]
      exact ⟨hmem.trans hpush, hn'⟩
    · rw [hbyte]
      refine ih (s := { s with card := card }) (w := ⟨value, w.n + 1, w.pos⟩)
        (show w.n + 1 ≤ 3 by omega) ?_
      show 4 * ((w.n + 1 + datacnt) / 4) ≤ _
      rw [Nat.add_assoc, Nat.add_comm 1]
      exact ha

variable {blocks size : Nat}

/-- A read leaves the bytes behind its end. -/
theorem mmcRun_read_other {shift : BitVec 32 → BitVec 32} {a : BitVec 32} (hn : w.n ≤ 3)
    (hsize : size < 2 ^ 32) (ha : blocks * size + 3 ≤ (a - s.sysad).toNat) :
    (mmcRun shift true size blocks s w).1.mem a = s.mem a := by
  induction blocks generalizing s w with
  | zero => rfl
  | succ blocks ih =>
    rw [Nat.succ_mul] at ha
    have hpos : s.sysad + 0 = s.sysad := BitVec.add_zero s.sysad
    have hdist := toNat_sub_ofNat a s.sysad hsize
    rw [if_pos (by omega)] at hdist
    have hwords : 4 * ((w.n + size) / 4) ≤ (a - (s.sysad + 0)).toNat := by
      rw [hpos]
      omega
    obtain ⟨hmem, hn'⟩ := mmcBytes_read_other shift (w := { w with pos := 0 }) hn hwords
    obtain ⟨mem, taken, output, hframe⟩ := mmcBytes_frame shift true size s { w with pos := 0 }
    rw [mmcRun_block (mmcBlock_eq (Prod.mk.eta).symm), ih hn', ← hmem]
    · rfl
    · rw [hframe]
      show _ ≤ (a - (s.sysad + BitVec.ofNat 32 0 + BitVec.ofNat 32 size)).toNat
      rw [show s.sysad + BitVec.ofNat 32 0 = s.sysad from hpos, hdist]
      omega

/-- The byte behind the last whole word of the first block is not written. -/
theorem mmcRun_read_loses (shift : BitVec 32 → BitVec 32) (hodd : ¬4 ∣ size)
    (hfit : blocks * size ≤ 2 ^ 28) (hsize : size ≤ 4095) :
    (mmcRun shift true size blocks s ⟨0, 0, 0⟩).1.mem (s.sysad + BitVec.ofNat 32 (4 * (size / 4))) =
      s.mem (s.sysad + BitVec.ofNat 32 (4 * (size / 4))) := by
  cases blocks with
  | zero => rfl
  | succ blocks =>
    rw [Nat.succ_mul] at hfit
    set a := s.sysad + BitVec.ofNat 32 (4 * (size / 4)) with hadef
    have hpos : s.sysad + 0 = s.sysad := BitVec.add_zero s.sysad
    have hsub : a - s.sysad = BitVec.ofNat 32 (4 * (size / 4)) := by
      rw [hadef, BitVec.add_comm, BitVec.add_sub_cancel]
    have hat : (a - s.sysad).toNat = 4 * (size / 4) := by
      rw [hsub, BitVec.toNat_ofNat]
      exact Nat.mod_eq_of_lt (by omega)
    have hdist := toNat_sub_ofNat a s.sysad (m := size) (by omega)
    rw [if_neg (by omega)] at hdist
    have hwords : 4 * ((0 + size) / 4) ≤ (a - (s.sysad + 0)).toNat := by
      rw [hpos]
      omega
    obtain ⟨hmem, hn'⟩ := mmcBytes_read_other shift (w := ⟨0, 0, 0⟩) (Nat.zero_le 3) hwords
    obtain ⟨mem, taken, output, hframe⟩ := mmcBytes_frame shift true size s ⟨0, 0, 0⟩
    rw [mmcRun_block (mmcBlock_eq (Prod.mk.eta).symm),
      mmcRun_read_other hn' (by omega), ← hmem]
    · rfl
    · rw [hframe]
      show _ ≤ (a - (s.sysad + BitVec.ofNat 32 0 + BitVec.ofNat 32 size)).toNat
      rw [show s.sysad + BitVec.ofNat 32 0 = s.sysad from hpos, hdist]
      omega

/-! ### Writes -/

theorem mmcBytes_add (shift : BitVec 32 → BitVec 32) (isRead : Bool) (m n : Nat) (s : Mmc)
    (w : MmcWord) :
    mmcBytes shift isRead (m + n) s w =
      mmcBytes shift isRead n (mmcBytes shift isRead m s w).1
        (mmcBytes shift isRead m s w).2 := by
  induction m generalizing s w with
  | zero =>
    rw [Nat.zero_add]
    rfl
  | succ m ih =>
    rw [Nat.succ_add]
    exact ih _ _

/-- Bytes out of the word that is there. -/
theorem mmcBytes_drain (shift : BitVec 32 → BitVec 32) {datacnt : Nat} (h : datacnt ≤ w.n) :
    (mmcBytes shift false datacnt s w).2.n = w.n - datacnt ∧
      (mmcBytes shift false datacnt s w).2.pos = w.pos := by
  induction datacnt generalizing s w with
  | zero => exact ⟨rfl, rfl⟩
  | succ datacnt ih =>
    have hfull : mmcRefill s w = w := if_neg (by omega)
    have hbyte : mmcWriteByte shift s w =
        (s.handed [(w.value &&& 0xff).setWidth 8], ⟨shift w.value, w.n - 1, w.pos⟩) := by
      unfold mmcWriteByte
      rw [hfull]
      rfl
    have hstep : mmcBytes shift false (datacnt + 1) s w =
        mmcBytes shift false datacnt (s.handed [(w.value &&& 0xff).setWidth 8])
          ⟨shift w.value, w.n - 1, w.pos⟩ := by
      show mmcBytes shift false datacnt (mmcWriteByte shift s w).1 (mmcWriteByte shift s w).2 = _
      rw [hbyte]
    rw [hstep]
    have hle : datacnt ≤ w.n - 1 := by omega
    obtain ⟨hn, hpos⟩ := ih (s := s.handed [(w.value &&& 0xff).setWidth 8])
      (w := ⟨shift w.value, w.n - 1, w.pos⟩) hle
    exact ⟨by rw [hn]; dsimp only; omega, hpos⟩

theorem mmcBytes_appends (shift : BitVec 32 → BitVec 32) (datacnt : Nat) (s : Mmc) (w : MmcWord) :
    ∃ bytes, (mmcBytes shift false datacnt s w).1.card.output = s.card.output ++ bytes := by
  induction datacnt generalizing s w with
  | zero => exact ⟨[], (List.append_nil _).symm⟩
  | succ datacnt ih =>
    obtain ⟨bytes, hbytes⟩ := ih (mmcWriteByte shift s w).1 (mmcWriteByte shift s w).2
    refine ⟨[((mmcRefill s w).value &&& 0xff).setWidth 8] ++ bytes, hbytes.trans ?_⟩
    rw [← List.append_assoc]
    rfl

/-- A write hands bytes to the card, and takes none back. -/
theorem mmcRun_appends (shift : BitVec 32 → BitVec 32) (size blocks : Nat) (s : Mmc)
    (w : MmcWord) :
    ∃ bytes, (mmcRun shift false size blocks s w).1.card.output = s.card.output ++ bytes := by
  induction blocks generalizing s w with
  | zero => exact ⟨[], (List.append_nil _).symm⟩
  | succ blocks ih =>
    obtain ⟨xs, hxs⟩ := mmcBytes_appends shift size s { w with pos := 0 }
    obtain ⟨ys, hys⟩ := ih (mmcBlock shift false size s w).1 (mmcBlock shift false size s w).2
    refine ⟨xs ++ ys, hys.trans ?_⟩
    rw [← List.append_assoc, ← hxs]
    rfl

/-- How many bytes of the second block are in the word that the first one left. -/
def carried (size : Nat) : Nat :=
  4 - size % 4

theorem carried_lt (hodd : ¬4 ∣ size) (hpart : ¬size ∣ 4) : carried size < size := by
  have hthree : 3 ≤ size := by
    by_contra hlt
    interval_cases size <;> revert hodd hpart <;> decide
  unfold carried
  omega

/-- The second block starts with the bytes that the word holds, and goes on from its own start. -/
theorem mmcRun_write_repeats {shift : BitVec 32 → BitVec 32} (hshift : ShiftsBytes shift)
    (hodd : ¬4 ∣ size) (hpart : ¬size ∣ 4) (hblocks : 2 ≤ blocks) (s : Mmc) :
    (mmcRun shift false size blocks s ⟨0, 0, 0⟩).1.card.output[s.card.output.length +
        (size + carried size)]? =
      some (s.mem (s.sysad + BitVec.ofNat 32 size)) := by
  obtain ⟨blocks, rfl⟩ := Nat.exists_eq_add_of_le hblocks
  have hcarried := carried_lt hodd hpart
  have hempty : (⟨0, 0, 0⟩ : MmcWord).Holds s.mem s.sysad :=
    ⟨Nat.zero_le 3, fun i hi => absurd hi (Nat.not_lt_zero i)⟩
  -- the first block is right, and leaves a word
  obtain ⟨w₁, hfirst, hholds₁, hmod₁⟩ := mmcBytes_write hshift hempty size fun _ => rfl
  have hn₁ : w₁.n = carried size := by
    have hle : w₁.n ≤ 3 := hholds₁.1
    have hmod : (w₁.n + size) % 4 = 0 := hmod₁
    unfold carried
    omega
  -- the second block takes what the word holds
  set s₁ := (s.handed (memBytes s.mem s.sysad size)).advance size with hs₁
  obtain ⟨w₂, hdrain, hholds₂, -⟩ := mmcBytes_write hshift (s := s₁) (w := { w₁ with pos := 0 })
    hholds₁ (carried size) fun hlt => absurd hlt (by rw [hn₁]; exact Nat.lt_irrefl _)
  have hdrained := mmcBytes_drain shift (s := s₁) (w := { w₁ with pos := 0 }) hn₁.ge
  rw [hdrain] at hdrained
  obtain ⟨hn₂, hpos₂⟩ := hdrained
  have hn₂ : w₂.n = 0 := by
    rw [hn₂, hn₁]
    exact Nat.sub_self _
  have hpos₂ : w₂.pos = 0 := hpos₂
  -- and then the word at its start
  have hholds₂ : w₂.Holds s.mem s₁.sysad :=
    ⟨hholds₂.1, fun i hi => absurd hi (by rw [hn₂]; exact Nat.not_lt_zero i)⟩
  obtain ⟨w₃, hrest, -, -⟩ := mmcBytes_write hshift
    (s := s₁.handed (memBytes s.mem s₁.sysad (carried size))) hholds₂ (size - carried size)
    fun _ => by rw [hpos₂, hn₂]; rfl
  have hsum : carried size + (size - carried size) = size := Nat.add_sub_of_le hcarried.le
  have hsecond : mmcBytes shift false size s₁ { w₁ with pos := 0 } =
      ((s₁.handed (memBytes s.mem s₁.sysad (carried size))).handed
        (memBytes s.mem s₁.sysad (size - carried size)), w₃) := by
    have hadd := mmcBytes_add shift false (carried size) (size - carried size) s₁
      { w₁ with pos := 0 }
    rw [hsum, hdrain] at hadd
    exact hadd.trans hrest
  obtain ⟨bytes, hbytes⟩ := mmcRun_appends shift size blocks
    (((s₁.handed (memBytes s.mem s₁.sysad (carried size))).handed
      (memBytes s.mem s₁.sysad (size - carried size))).advance size) w₃
  rw [Nat.add_comm 2, mmcRun_block (mmcBlock_eq hfirst), mmcRun_block (mmcBlock_eq hsecond), hbytes]
  show (s.card.output ++ memBytes s.mem s.sysad size ++ memBytes s.mem s₁.sysad (carried size) ++
    memBytes s.mem s₁.sysad (size - carried size) ++ bytes)[_]? = _
  have hpre : (s.card.output ++ memBytes s.mem s.sysad size ++
      memBytes s.mem s₁.sysad (carried size)).length =
      s.card.output.length + (size + carried size) := by
    simp only [List.length_append, length_memBytes, Nat.add_assoc]
  rw [List.append_assoc _ (memBytes s.mem s₁.sysad (size - carried size)) bytes,
    List.getElem?_append_right hpre.le, hpre, Nat.sub_self,
    List.getElem?_append_left (by rw [length_memBytes]; omega),
    getElem?_memBytes _ _ (by omega)]
  rw [show s₁.sysad = s.sysad + BitVec.ofNat 32 size from rfl]
  exact congrArg (fun a => some (s.mem a)) (BitVec.add_zero _)

/-! ### The exact condition -/

theorem Mmc.Right.second (h : s.Right) (hready : s.isRead → s.card.ready)
    (hblk : 2 ≤ s.blkcnt.toNat) :
    (mmcResume (mmcFifoRun s)).xfer = (mmcFifoRun s).call (mmcFifoRun s).xfer := by
  have hfirst : (mmcFifoRun s).xfer = s.call s.xfer := h 0
  have hsecond : (mmcResume (mmcFifoRun s)).xfer = s.call (s.call s.xfer) := h 1
  rw [(mmcFifoRun_calls hready hblk).1.call, hfirst]
  exact hsecond

/-- A transfer that is right hits the boundary. -/
theorem Mmc.Right.pauses (h : s.Right) (hsize : 0 < s.size) (hready : s.isRead → s.card.ready)
    (hblk : 2 ≤ s.blkcnt.toNat) : s.Pauses := by
  intro hdma
  have hcalls := mmcFifoRun_calls hready hblk
  have hfirst : (mmcFifoRun s).xfer = s.call s.xfer := h 0
  have hpause := (hcalls.left_iff hsize).mp (congrArg MmcXfer.left hfirst)
  by_cases hlast : (s.blkcnt.toNat - 1) * s.size < s.dist
  · exact .inl hlast
  have hdvd := (hpause hdma).resolve_right hlast
  refine .inr ⟨hdvd, ?_⟩
  obtain ⟨i, hi⟩ := hdvd
  have hdist : s.dist = i * s.size := by rw [hi, Nat.mul_comm]
  have hpos := dist_pos s
  have hone : 1 ≤ i := Nat.pos_of_mul_pos_left (hi ▸ hpos)
  have hlt : i ≤ s.blkcnt.toNat - 1 :=
    Nat.le_of_mul_le_mul_right (hdist ▸ Nat.le_of_not_lt hlast) hsize
  have hblocks : s.blocks = i := by
    unfold Mmc.blocks
    rw [hdma, hdist]
    exact stopAfter_hit hsize hone (by omega)
  have hleft : (mmcFifoRun s).blkcnt.toNat = s.blkcnt.toNat - i := hblocks ▸ hcalls.left
  rcases hcalls.paused hsize with hdone | ⟨-, haligned, -⟩
  · omega
  -- the second call starts at the boundary
  have hcalls' : Calls (mmcFifoRun s) (mmcResume (mmcFifoRun s)) :=
    mmcResume_calls fun hzero => by
      rw [hzero] at hleft
      have : (0 : BitVec 16).toNat = 0 := rfl
      omega
  have hsize' : 0 < (mmcFifoRun s).size := hcalls.1.size ▸ hsize
  have hpause' := (hcalls'.left_iff hsize').mp (congrArg MmcXfer.left (h.second hready hblk))
  have hdist' : (mmcFifoRun s).dist = s.boundaryChk.toNat := by
    rw [← hcalls.1.boundaryChk] at haligned ⊢
    exact toBoundary_aligned haligned
  rw [hcalls.1.dma, hcalls.1.size, hdist', hleft] at hpause'
  rcases hpause' hdma with hdvd | hlast'
  · exact .inl hdvd
  · have hsplit : (s.blkcnt.toNat - 1) * s.size =
        (s.blkcnt.toNat - i - 1) * s.size + i * s.size := by
      rw [← Nat.add_mul]
      congr 1
      omega
    exact .inr (by omega)

theorem one_le_pauseAfter (hsize : 0 < s.size) (hblk : 1 ≤ s.blkcnt.toNat) :
    1 ≤ pauseAfter s.dma s.size s.boundaryChk.toNat s.xfer := by
  have hpos := dist_pos s
  have hceil : 1 ≤ (s.dist + (s.size - 1)) / s.size := by
    rw [Nat.le_div_iff_mul_le hsize]
    omega
  unfold pauseAfter
  split_ifs
  · exact Nat.le_min.mpr ⟨hblk, hceil⟩
  · exact hblk

theorem call_mem (hdir : s.isRead = true) :
    (s.call s.xfer).mem = memStore s.mem s.sysad (nextBytes s.card.input s.card.taken
      (pauseAfter s.dma s.size s.boundaryChk.toNat s.xfer * s.size)) := by
  unfold Mmc.call MmcXfer.call MmcXfer.move
  dsimp only
  rw [if_pos hdir]
  rfl

theorem call_output (hdir : ¬s.isRead) :
    (s.call s.xfer).output = s.card.output ++ memBytes s.mem s.sysad
      (pauseAfter s.dma s.size s.boundaryChk.toNat s.xfer * s.size) := by
  unfold Mmc.call MmcXfer.call MmcXfer.move
  dsimp only
  rw [if_neg hdir]
  rfl

/-- A read that is right whatever the card gives consists of whole words. -/
theorem read_packs (hsize : 0 < s.size) (hblk : 2 ≤ s.blkcnt.toNat) (hdir : s.isRead = true)
    (h : ∀ mem card, (s.isRead → card.ready) → ({ s with mem := mem, card := card } : Mmc).Right) :
    4 ∣ s.size := by
  by_contra hodd
  -- a card that gives ones, and a memory of zeros
  set t : Mmc := { s with mem := fun _ => 0, card := ⟨true, fun _ => 0xff, 0, []⟩ } with ht
  have hready : t.isRead → t.card.ready := fun _ => rfl
  have hcalls : Calls t (mmcFifoRun t) := mmcFifoRun_calls hready hblk
  have hright : t.Right := h _ _ fun _ => rfl
  have hfirst : (mmcFifoRun t).xfer = t.call t.xfer := hright 0
  obtain ⟨-, shift, -, hxfer⟩ := hcalls
  have hbytes : t.blocks * t.size ≤ 2 ^ 28 := bytes_le t (blocks_le t)
  have hlost := mmcRun_read_loses shift (s := t) hodd hbytes (size_le t)
  have hcode : (mmcFifoRun t).xfer.mem (t.sysad + BitVec.ofNat 32 (4 * (s.size / 4))) = 0 := by
    rw [hxfer, mmcMultiBlock_eq]
    rw [← show t.isRead = true from hdir] at hlost
    exact hlost
  have hspec : (t.call t.xfer).mem (t.sysad + BitVec.ofNat 32 (4 * (s.size / 4))) = 0xff := by
    have hdir' : t.isRead = true := hdir
    have hblk' : 2 ≤ t.blkcnt.toNat := hblk
    have hblocks := one_le_pauseAfter (s := t) hsize (by omega)
    have hmul := Nat.mul_le_mul_right t.size hblocks
    have hle := size_le s
    have hfour : 4 * (s.size / 4) < t.size := by
      show _ < s.size
      omega
    have hsub : t.sysad + BitVec.ofNat 32 (4 * (s.size / 4)) - t.sysad =
        BitVec.ofNat 32 (4 * (s.size / 4)) := by
      rw [BitVec.add_comm, BitVec.add_sub_cancel]
    have hat : (t.sysad + BitVec.ofNat 32 (4 * (s.size / 4)) - t.sysad).toNat =
        4 * (s.size / 4) := by
      rw [hsub, BitVec.toNat_ofNat]
      exact Nat.mod_eq_of_lt (by omega)
    rw [call_mem hdir', memStore_at (by rw [hat, length_nextBytes]; omega)]
    simp [nextBytes, ht]
  rw [hfirst, hspec] at hcode
  exact absurd hcode (by decide)

/-- A call that carries a word into its second block goes wrong where the bytes that it repeats are
    not those that were to come. -/
theorem Calls.repeats {s' : Mmc} (h : Calls s s') (hdir : ¬s.isRead) (hsize : 0 < s.size)
    (hodd : ¬4 ∣ s.size) (hpart : ¬s.size ∣ 4) (hblocks : 2 ≤ s.blocks)
    (hright : s'.xfer = s.call s.xfer) :
    s.mem (s.sysad + BitVec.ofNat 32 s.size) =
      s.mem (s.sysad + BitVec.ofNat 32 (s.size + carried s.size)) := by
  have hpause := (blocks_eq_iff hsize).mpr
    ((h.left_iff hsize).mp (congrArg MmcXfer.left hright))
  obtain ⟨-, shift, hshift, hxfer⟩ := h
  have hrun := mmcRun_write_repeats hshift hodd hpart hblocks s
  have hcode : s'.xfer.output[s.card.output.length + (s.size + carried s.size)]? =
      some (s.mem (s.sysad + BitVec.ofNat 32 s.size)) := by
    rw [hxfer, mmcMultiBlock_eq]
    rw [← Bool.eq_false_iff.mpr hdir] at hrun
    exact hrun
  have hcarried := carried_lt hodd hpart
  have hmul := Nat.mul_le_mul_right s.size hblocks
  rw [hright, call_output hdir, ← hpause,
    List.getElem?_append_right (Nat.le_add_right _ _), Nat.add_sub_cancel_left,
    getElem?_memBytes _ _ (by omega)] at hcode
  exact (Option.some.inj hcode).symm

theorem two_le_blocks (hblk : 2 ≤ s.blkcnt.toNat) (h : ¬(s.dma ∧ s.dist = s.size)) :
    2 ≤ s.blocks := by
  obtain ⟨left, hleft⟩ := Nat.exists_eq_add_of_le hblk
  have hne : ¬((s.dist : Int) = s.size ∧ s.dma = true) :=
    fun ⟨hdist, hdma⟩ => h ⟨hdma, Int.ofNat.inj hdist⟩
  unfold Mmc.blocks
  rw [hleft, Nat.add_comm]
  unfold stopAfter
  rw [if_neg hne]
  unfold stopAfter
  split_ifs <;> omega

/-- A memory that tells where a block starts that is written at `addr`. -/
def markAt (addr : BitVec 32) (size : Nat) : BitVec 32 → Byte := fun a =>
  if a = addr + BitVec.ofNat 32 size then 1 else 0

/-- Such a memory tells the right start from the one that the code takes. -/
theorem markAt_ne (addr : BitVec 32) (size : Nat) :
    markAt addr size (addr + BitVec.ofNat 32 size) ≠
      markAt addr size (addr + BitVec.ofNat 32 (size + carried size)) := by
  have hne : addr + BitVec.ofNat 32 (size + carried size) ≠ addr + BitVec.ofNat 32 size := by
    intro h
    rw [BitVec.ofNat_add, ← BitVec.add_assoc] at h
    have hzero : BitVec.ofNat 32 (carried size) = 0 := BitVec.add_right_eq_self.mp h
    have hnat := congrArg BitVec.toNat hzero
    rw [BitVec.toNat_ofNat] at hnat
    change carried size % 2 ^ 32 = 0 at hnat
    unfold carried at hnat
    omega
  unfold markAt
  rw [if_pos rfl, if_neg hne]
  decide

/-- A write that is right whatever the memory holds packs its words. -/
theorem write_packs {s : Mmc} (hsize : 0 < s.size) (hblk : 2 ≤ s.blkcnt.toNat)
    (hdir : ¬s.isRead)
    (h : ∀ mem card, (s.isRead → card.ready) →
      ({ s with mem := mem, card := card } : Mmc).Right) :
    4 ∣ s.size ∨ s.size ∣ 4 ∨ (s.dma ∧ s.blkcnt.toNat = 2 ∧ s.dist = s.size) := by
  by_contra hcon
  push Not at hcon
  obtain ⟨hodd, hpart, hmore⟩ := hcon
  by_cases hone : s.dma ∧ s.dist = s.size
  -- the first call has one block, and the second one more
  · obtain ⟨hdma, hdist⟩ := hone
    have hmore := hmore hdma
    set t : Mmc := { s with mem := markAt (s.sysad + BitVec.ofNat 32 s.size) s.size } with ht
    have hready : t.isRead → t.card.ready := fun hread => absurd hread hdir
    have hright : t.Right := h _ s.card fun hread => absurd hread hdir
    have hcalls : Calls t (mmcFifoRun t) := mmcFifoRun_calls hready hblk
    have hfirst : (mmcFifoRun t).xfer = t.call t.xfer := hright 0
    have hmem : (mmcFifoRun t).mem = t.mem := by
      show (mmcFifoRun t).xfer.mem = _
      rw [hfirst]
      unfold Mmc.call MmcXfer.call MmcXfer.move
      dsimp only
      rw [if_neg (show ¬t.isRead from hdir)]
      rfl
    have hblocks : t.blocks = 1 := by
      have hhit := stopAfter_hit hsize (Nat.le_refl 1)
        (show 1 ≤ s.blkcnt.toNat by omega)
      rw [Nat.one_mul, ← hdma] at hhit
      unfold Mmc.blocks
      rw [show t.dist = t.size from hdist]
      exact hhit
    have hsysad : (mmcFifoRun t).sysad = s.sysad + BitVec.ofNat 32 s.size := by
      have haddr := hcalls.sysad
      rw [hblocks, Nat.one_mul] at haddr
      exact haddr
    have hleft : (mmcFifoRun t).blkcnt.toNat = s.blkcnt.toNat - 1 := hblocks ▸ hcalls.left
    have hne : s.blkcnt.toNat ≠ 2 := fun htwo => hmore htwo hdist
    have hblk' : 2 ≤ (mmcFifoRun t).blkcnt.toNat := by omega
    have hcalls' : Calls (mmcFifoRun t) (mmcResume (mmcFifoRun t)) :=
      mmcResume_calls fun hzero => by
        rw [hzero] at hblk'
        exact absurd hblk' (by decide)
    have hsize' : (mmcFifoRun t).size = s.size := hcalls.1.size
    have hmany : 2 ≤ (mmcFifoRun t).blocks := by
      refine two_le_blocks hblk' ?_
      rintro ⟨-, hdist'⟩
      rcases hcalls.paused hsize with hdone | ⟨-, haligned, -⟩
      · omega
      · rw [← hcalls.1.boundaryChk] at haligned
        have hchk : (mmcFifoRun t).dist = (mmcFifoRun t).boundaryChk.toNat :=
          toBoundary_aligned haligned
        have hge := boundaryChk_ge (mmcFifoRun t)
        have hle := size_le (mmcFifoRun t)
        omega
    have hsame := hcalls'.repeats (hcalls.1.isRead ▸ hdir) (hsize' ▸ hsize) (hsize' ▸ hodd)
      (hsize' ▸ hpart) hmany (hright.second hready hblk)
    rw [hmem, hsysad, hsize'] at hsame
    exact markAt_ne _ _ hsame
  · set t : Mmc := { s with mem := markAt s.sysad s.size } with ht
    have hready : t.isRead → t.card.ready := fun hread => absurd hread hdir
    have hright : t.Right := h _ s.card fun hread => absurd hread hdir
    have hsame := (mmcFifoRun_calls hready hblk).repeats hdir hsize hodd hpart
      (two_le_blocks hblk hone) (hright 0)
    exact markAt_ne _ _ hsame

/-- A multi-block transfer is right, however the memory and the card are filled, exactly if no word
    is carried over a block where it does harm and the blocks hit the boundary. -/
theorem mmc_transfers (s : Mmc) (hsize : 0 < s.size) (hblk : 2 ≤ s.blkcnt.toNat) :
    (∀ mem card, (s.isRead → card.ready) → ({ s with mem := mem, card := card } : Mmc).Right) ↔
      s.Packs ∧ s.Pauses := by
  constructor
  · intro h
    refine ⟨⟨fun hdir => read_packs hsize hblk hdir h, fun hdir => write_packs hsize hblk hdir h⟩,
      ?_⟩
    have hright : ({ s with card := ⟨true, s.card.input, 0, []⟩ } : Mmc).Right :=
      h s.mem _ fun _ => rfl
    exact hright.pauses hsize (fun _ => rfl) hblk
  · rintro ⟨hpacks, hpauses⟩ mem card hready
    exact transfer_right (s := { s with mem := mem, card := card }) hsize hblk hready hpacks hpauses

/-- Four blocks of 512 bytes are read to 0x1c00, with a pause at 0x2000. -/
def mmcSectors : Mmc where
  sysad := 0x1c00
  blksize := 0x200
  blkcnt := 4
  trnmod := S5C_HSMMC_TRNS_READ
  norintsts := 0
  norintstsen := S5C_HSMMC_NIS_DMA
  dmaTranscpt := 0
  irq := false
  card := ⟨true, fun _ => 0xff, 0, []⟩
  mem := fun _ => 0

/-- That transfer is right. -/
theorem mmc_transfers_sectors : mmcSectors.Right :=
  (mmc_transfers mmcSectors (by decide) (by decide)).mpr ⟨by decide, by decide⟩ mmcSectors.mem
    mmcSectors.card fun _ => rfl

/-- Two blocks of three bytes. -/
def mmcTriples : Mmc :=
  { mmcSectors with blksize := 3, blkcnt := 2, norintstsen := 0 }

/-- The first byte stays as it was. -/
theorem mmc_transfers_lost :
    0 < mmcTriples.size ∧ 2 ≤ mmcTriples.blkcnt.toNat ∧ mmcTriples.card.ready ∧
      ¬mmcTriples.Right := by
  refine ⟨by decide, by decide, rfl, fun h => ?_⟩
  have hfirst := congrFun (congrArg MmcXfer.mem (h 0)) 0x1c00
  revert hfirst
  decide

end Qemu.Hw
