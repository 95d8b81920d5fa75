import Qemu.Hw.MmcXfer

namespace Qemu.Hw

open Lib

/-!
# When the transfers of the MMC controller are right

* `Mmc.Packs`, `Mmc.Pauses` — no word is carried over a block where it does harm, and the blocks hit
  the boundary;
* `Calls` — what starting a transfer and resuming it have in common;
* `Calls.right`, `Calls.underway` — what a call does if both hold, and what it leaves;
* `transfer_right` — then all calls of a transfer are right.
-/

/-! ### The boundary -/

/-- From SYSAD to the boundary. -/
def Mmc.dist (s : Mmc) : Nat :=
  toBoundary s.boundaryChk.toNat s.sysad

/-- Where words are carried over a block: a read has to consist of whole words, and a write must not
    start a block with a part of a word, unless the block is just that part. -/
def Mmc.Packs (s : Mmc) : Prop :=
  (s.isRead → 4 ∣ s.size) ∧
    (¬s.isRead →
      4 ∣ s.size ∨ s.size ∣ 4 ∨ (s.dma ∧ s.blkcnt.toNat = 2 ∧ s.dist = s.size))

/-- The countdown hits the boundary, also that of the calls that follow, as long as more than the
    last block is left. -/
def Mmc.Pauses (s : Mmc) : Prop :=
  s.dma → (s.blkcnt.toNat - 1) * s.size < s.dist ∨
    (s.size ∣ s.dist ∧
      (s.size ∣ s.boundaryChk.toNat ∨
        (s.blkcnt.toNat - 1) * s.size < s.dist + s.boundaryChk.toNat))

instance Mmc.decidablePacks (s : Mmc) : Decidable s.Packs :=
  inferInstanceAs (Decidable (_ ∧ _))

instance Mmc.decidablePauses (s : Mmc) : Decidable s.Pauses :=
  inferInstanceAs (Decidable (_ → _))

theorem boundaryChk_toNat (s : Mmc) : ∃ m < 16, s.boundaryChk.toNat = 2 ^ (m + 12) := by
  have hlt := (s.blksize &&& 0xf000).isLt
  have hm : (s.blksize &&& 0xf000).toNat / 2 ^ 12 < 16 := by omega
  refine ⟨_, hm, ?_⟩
  unfold Mmc.boundaryChk
  generalize (s.blksize &&& 0xf000).toNat / 2 ^ 12 = m at hm
  interval_cases m <;> rfl

theorem boundaryChk_dvd (s : Mmc) : s.boundaryChk.toNat ∣ 2 ^ 32 := by
  obtain ⟨m, hm, h⟩ := boundaryChk_toNat s
  rw [h]
  exact Nat.pow_dvd_pow 2 (by omega)

theorem boundaryChk_ge (s : Mmc) : 4096 ≤ s.boundaryChk.toNat := by
  obtain ⟨m, hm, h⟩ := boundaryChk_toNat s
  have := Nat.pow_le_pow_right (n := 2) (by decide) (show 12 ≤ m + 12 by omega)
  omega

theorem boundaryChk_le (s : Mmc) : s.boundaryChk.toNat ≤ 2 ^ 27 := by
  obtain ⟨m, hm, h⟩ := boundaryChk_toNat s
  rw [h]
  exact Nat.pow_le_pow_right (by decide) (by omega)

theorem size_le (s : Mmc) : s.size ≤ 4095 := by
  have hand : s.size = s.blksize.toNat &&& 4095 := BitVec.toNat_and _ _
  rw [hand]
  exact Nat.and_le_right

theorem bytes_le (s : Mmc) {blocks : Nat} (h : blocks ≤ s.blkcnt.toNat) :
    blocks * s.size ≤ 2 ^ 28 := by
  have hcnt := s.blkcnt.isLt
  have hmul := Nat.mul_le_mul (show blocks ≤ 65535 by omega) (size_le s)
  omega

theorem dist_pos (s : Mmc) : 0 < s.dist := by
  have hpos : 0 < s.boundaryChk.toNat := Nat.lt_of_lt_of_le (by decide) (boundaryChk_ge s)
  have hmod := Nat.mod_lt s.sysad.toNat hpos
  unfold Mmc.dist toBoundary
  omega

theorem dist_le (s : Mmc) : s.dist ≤ s.boundaryChk.toNat :=
  Nat.sub_le _ _

theorem toBoundary_aligned {chk : Nat} {sysad : BitVec 32} (h : chk ∣ sysad.toNat) :
    toBoundary chk sysad = chk := by
  unfold toBoundary
  rw [Nat.mod_eq_zero_of_dvd h, Nat.sub_zero]

/-- The boundary itself, also where it is the end of the addresses. -/
theorem dvd_add_toBoundary {chk : Nat} (hpos : 0 < chk) (hchk : chk ∣ 2 ^ 32) (sysad : BitVec 32) :
    chk ∣ (sysad + BitVec.ofNat 32 (toBoundary chk sysad)).toNat := by
  have hmod := Nat.mod_lt sysad.toNat hpos
  have hsplit := Nat.div_add_mod sysad.toNat chk
  have hsum : sysad.toNat + toBoundary chk sysad = chk * (sysad.toNat / chk + 1) := by
    unfold toBoundary
    rw [Nat.mul_succ]
    omega
  rw [BitVec.toNat_add, BitVec.toNat_ofNat, Nat.add_mod_mod, hsum]
  exact (Nat.dvd_mod_iff hchk).mpr (Nat.dvd_mul_right chk _)

/-- The countdown that the code computes. -/
theorem boundary_count (s : Mmc) :
    s.boundaryChk - s.sysad % s.boundaryChk = BitVec.ofInt 32 s.dist := by
  have hpos : 0 < s.boundaryChk.toNat := Nat.lt_of_lt_of_le (by decide) (boundaryChk_ge s)
  have hmod := Nat.mod_lt s.sysad.toNat hpos
  have hle : s.sysad % s.boundaryChk ≤ s.boundaryChk := by
    rw [BitVec.le_def, BitVec.toNat_umod]
    exact hmod.le
  have hfit : s.dist < 2 ^ 32 := by
    have hdist := dist_le s
    have hchk := boundaryChk_le s
    omega
  apply BitVec.eq_of_toNat_eq
  rw [BitVec.toNat_sub_of_le hle, BitVec.toNat_umod, BitVec.ofInt_natCast, BitVec.toNat_ofNat,
    Nat.mod_eq_of_lt hfit]
  rfl

/-- The loop stops where a call is to pause exactly if the countdown hits the boundary, or does not
    come to it before the last block. -/
theorem stopAfter_eq_iff {dma : Bool} {size left dist : Nat} (hsize : 0 < size) (hdist : 0 < dist) :
    stopAfter dma size left dist =
        (if dma then min left ((dist + (size - 1)) / size) else left) ↔
      (dma → size ∣ dist ∨ (left - 1) * size < dist) := by
  cases dma with
  | false =>
    rw [stopAfter_miss (by simp)]
    simp
  | true =>
    rw [if_pos rfl]
    -- a buffer of whole blocks ends with one of them, another one is never met
    by_cases hdvd : size ∣ dist
    · obtain ⟨i, rfl⟩ := hdvd
      have hi : 0 < i := Nat.pos_of_mul_pos_left hdist
      have hceil : (size * i + (size - 1)) / size = i := by
        rw [Nat.mul_add_div hsize, Nat.div_eq_of_lt (by omega), Nat.add_zero]
      rw [hceil]
      refine iff_of_true ?_ fun _ => .inl (Nat.dvd_mul_right size i)
      rcases Nat.lt_or_ge left i with hlt | hge
      · rw [Nat.min_eq_left hlt.le]
        refine stopAfter_miss fun _ j hj hle heq => ?_
        have hij : size * i = j * size := Int.ofNat.inj heq
        rw [Nat.mul_comm] at hij
        have := Nat.eq_of_mul_eq_mul_right hsize hij
        omega
      · rw [Nat.min_eq_right hge, Nat.mul_comm]
        exact stopAfter_hit hsize hi hge
    · have hmiss : stopAfter true size left dist = left := by
        refine stopAfter_miss fun _ j hj hle heq => hdvd ?_
        have hjd : dist = j * size := Int.ofNat.inj heq
        exact hjd ▸ Nat.dvd_mul_left size j
      have hceil : left ≤ (dist + (size - 1)) / size ↔ (left - 1) * size < dist := by
        rw [Nat.le_div_iff_mul_le hsize]
        cases left with
        | zero => simp [hdist]
        | succ left =>
          rw [Nat.add_sub_cancel, Nat.succ_mul]
          omega
      rw [hmiss]
      constructor
      · intro h _
        exact .inr (hceil.mp (h ▸ Nat.min_le_right _ _))
      · intro h
        rcases h rfl with hdvd' | hlt
        · exact absurd hdvd' hdvd
        · exact (Nat.min_eq_left (hceil.mpr hlt)).symm

/-! ### Calls -/

/-- The blocks that the loop transfers. -/
def Mmc.blocks (s : Mmc) : Nat :=
  stopAfter s.dma s.size s.blkcnt.toNat s.dist

/-- Two states of one transfer. -/
structure SameSetup (s s' : Mmc) : Prop where
  blksize : s'.blksize = s.blksize
  trnmod : s'.trnmod = s.trnmod
  norintstsen : s'.norintstsen = s.norintstsen
  input : s'.card.input = s.card.input

theorem SameSetup.trans {s s' s'' : Mmc} (h : SameSetup s s') (h' : SameSetup s' s'') :
    SameSetup s s'' where
  blksize := h'.blksize.trans h.blksize
  trnmod := h'.trnmod.trans h.trnmod
  norintstsen := h'.norintstsen.trans h.norintstsen
  input := h'.input.trans h.input

section SameSetup

variable {s s' : Mmc} (h : SameSetup s s')
include h

theorem SameSetup.size : s'.size = s.size := by
  unfold Mmc.size
  rw [h.blksize]

theorem SameSetup.isRead : s'.isRead = s.isRead := by
  unfold Mmc.isRead
  rw [h.trnmod]

theorem SameSetup.dma : s'.dma = s.dma := by
  unfold Mmc.dma
  rw [h.norintstsen]

theorem SameSetup.boundaryChk : s'.boundaryChk = s.boundaryChk := by
  unfold Mmc.boundaryChk
  rw [h.blksize]

theorem SameSetup.call : s'.call = s.call := by
  unfold Mmc.call
  rw [h.isRead, h.dma, h.size, h.boundaryChk, h.input]

end SameSetup

theorem stopAfter_le (dma : Bool) (size left : Nat) (dist : Int) :
    stopAfter dma size left dist ≤ left := by
  induction left generalizing dist with
  | zero => exact Nat.le_refl 0
  | succ left ih =>
    unfold stopAfter
    split_ifs
    · exact Nat.succ_le_succ (Nat.zero_le left)
    · exact Nat.succ_le_succ (ih _)

theorem blocks_le (s : Mmc) : s.blocks ≤ s.blkcnt.toNat :=
  stopAfter_le _ _ _ _

theorem mmcMultiBlock_eq (shift : BitVec 32 → BitVec 32) (s : Mmc) :
    mmcMultiBlock shift s =
      { (mmcRun shift s.isRead s.size s.blocks s ⟨0, 0, 0⟩).1 with
        blkcnt := BitVec.ofNat 16 (s.blkcnt.toNat - s.blocks) } := by
  have hbytes := bytes_le s (Nat.le_refl _)
  have hdist := dist_le s
  have hchk := boundaryChk_le s
  have hpos := dist_pos s
  unfold mmcMultiBlock
  rw [boundary_count, mmcBlocks_eq _ _ _ (by omega) (by omega)]
  rfl

/-- A call of the source, and the shift that it uses; what it does to the interrupts is nothing to
    the transfer. -/
def Calls (s s' : Mmc) : Prop :=
  SameSetup s s' ∧ ∃ shift, ShiftsBytes shift ∧ s'.xfer = (mmcMultiBlock shift s).xfer

theorem mmcMultiBlock_setup (shift : BitVec 32 → BitVec 32) (s : Mmc) :
    SameSetup s (mmcMultiBlock shift s) := by
  obtain ⟨mem, taken, output, hrun⟩ := mmcRun_frame shift s.isRead s.size s.blocks s ⟨0, 0, 0⟩
  rw [mmcMultiBlock_eq, hrun]
  exact ⟨rfl, rfl, rfl, rfl⟩

/-- The first call of a transfer. -/
theorem mmcFifoRun_calls {s : Mmc} (hready : s.isRead → s.card.ready) (hblk : 2 ≤ s.blkcnt.toNat) :
    Calls s (mmcFifoRun s) := by
  have hne : s.blkcnt ≠ 0 := by
    intro h
    rw [h] at hblk
    exact absurd hblk (by decide)
  have hstart : s.blkcnt ≠ 0 ∧ (!s.isRead || s.card.ready) := by
    refine ⟨hne, ?_⟩
    cases hread : s.isRead with
    | false => rfl
    | true => simpa using hready hread
  have hmany : 1 < s.blkcnt := hblk
  have hsetup := mmcMultiBlock_setup (· >>> 8) s
  refine ⟨?_, (· >>> 8), ushiftRight_shifts, ?_⟩
  all_goals
    unfold mmcFifoRun
    rw [if_pos hstart, if_pos hmany]
    dsimp only
    split_ifs
  · exact ⟨hsetup.blksize, hsetup.trnmod, hsetup.norintstsen, hsetup.input⟩
  · exact ⟨hsetup.blksize, hsetup.trnmod, hsetup.norintstsen, hsetup.input⟩
  · rfl
  · rfl

theorem mmcDmaInt_setup (s : Mmc) : SameSetup s (mmcDmaInt s) := by
  unfold mmcDmaInt
  split_ifs <;> exact ⟨rfl, rfl, rfl, rfl⟩

theorem mmcDmaInt_xfer (s : Mmc) : (mmcDmaInt s).xfer = s.xfer := by
  unfold mmcDmaInt
  split_ifs <;> rfl

/-- A call behind a pause. -/
theorem mmcResume_calls {s : Mmc} (hblk : s.blkcnt ≠ 0) : Calls s (mmcResume s) := by
  have hsetup := mmcMultiBlock_setup (BitVec.sshiftRight · 8) s
  have hresume : ∃ transcpt, mmcResume s =
      mmcDmaInt { mmcMultiBlock (BitVec.sshiftRight · 8) s with dmaTranscpt := transcpt } := by
    unfold mmcResume mmcWriteSysad
    dsimp only
    rw [if_pos hblk]
    exact ⟨_, rfl⟩
  obtain ⟨transcpt, hresume⟩ := hresume
  rw [hresume]
  refine ⟨SameSetup.trans ?_ (mmcDmaInt_setup _), (BitVec.sshiftRight · 8), sshiftRight_shifts,
    mmcDmaInt_xfer _⟩
  exact ⟨hsetup.blksize, hsetup.trnmod, hsetup.norintstsen, hsetup.input⟩

theorem mmcResume_done {s : Mmc} (hblk : s.blkcnt = 0) : mmcResume s = s := by
  unfold mmcResume mmcWriteSysad
  dsimp only
  rw [if_neg (not_not.mpr hblk)]

namespace Calls

variable {s s' : Mmc}

theorem left (h : Calls s s') : s'.xfer.left = s.blkcnt.toNat - s.blocks := by
  obtain ⟨-, shift, -, hxfer⟩ := h
  have hcnt := s.blkcnt.isLt
  rw [hxfer, mmcMultiBlock_eq]
  show (BitVec.ofNat 16 (s.blkcnt.toNat - s.blocks)).toNat = _
  rw [BitVec.toNat_ofNat, Nat.mod_eq_of_lt (by omega)]

theorem sysad (h : Calls s s') :
    s'.xfer.sysad = s.sysad + BitVec.ofNat 32 (s.blocks * s.size) := by
  obtain ⟨-, shift, -, hxfer⟩ := h
  obtain ⟨mem, taken, output, hrun⟩ := mmcRun_frame shift s.isRead s.size s.blocks s ⟨0, 0, 0⟩
  rw [hxfer, mmcMultiBlock_eq, hrun]
  rfl

end Calls

theorem pauseAfter_le (s : Mmc) :
    pauseAfter s.dma s.size s.boundaryChk.toNat s.xfer ≤ s.blkcnt.toNat := by
  unfold pauseAfter
  split_ifs
  · exact Nat.min_le_left _ _
  · exact Nat.le_refl _

theorem blocks_eq_iff {s : Mmc} (hsize : 0 < s.size) :
    s.blocks = pauseAfter s.dma s.size s.boundaryChk.toNat s.xfer ↔
      (s.dma → s.size ∣ s.dist ∨ (s.blkcnt.toNat - 1) * s.size < s.dist) :=
  stopAfter_eq_iff hsize (dist_pos s)

theorem Calls.left_iff {s s' : Mmc} (h : Calls s s') (hsize : 0 < s.size) :
    s'.xfer.left = (s.call s.xfer).left ↔
      (s.dma → s.size ∣ s.dist ∨ (s.blkcnt.toNat - 1) * s.size < s.dist) := by
  have hcode := blocks_le s
  have hspec := pauseAfter_le s
  rw [h.left, ← blocks_eq_iff hsize]
  show _ = s.blkcnt.toNat - pauseAfter s.dma s.size s.boundaryChk.toNat s.xfer ↔ _
  omega

/-- A call that pauses right and packs its words moves its bytes. -/
theorem Calls.right {s s' : Mmc} (h : Calls s s') (hsize : 0 < s.size)
    (hpause : s.dma → s.size ∣ s.dist ∨ (s.blkcnt.toNat - 1) * s.size < s.dist)
    (hread : s.isRead → 4 ∣ s.size)
    (hwrite : ¬s.isRead → 4 ∣ s.size ∨ s.size ∣ 4 ∨ s.blocks ≤ 1) :
    s'.xfer = s.call s.xfer := by
  have hleft := (h.left_iff hsize).mpr hpause
  have hblocks := (blocks_eq_iff hsize).mpr hpause
  have hbytes := bytes_le s (blocks_le s)
  obtain ⟨-, shift, hshift, hxfer⟩ := h
  rw [hxfer] at hleft
  have hxfer' : ∀ s₁ : Mmc, (mmcRun shift s.isRead s.size s.blocks s ⟨0, 0, 0⟩).1 = s₁ →
      s'.xfer = { s₁.xfer with left := (s.call s.xfer).left } := by
    rintro s₁ rfl
    rw [hxfer, ← hleft, mmcMultiBlock_eq]
    rfl
  -- a read packs the bytes of a word, a write unpacks them
  cases hdir : s.isRead with
  | true =>
    have hrun := mmcRun_read shift (hread hdir) s.blocks (by omega) s 0
    rw [← hdir] at hrun
    rw [hxfer' _ hrun]
    unfold Mmc.call MmcXfer.call MmcXfer.move
    rw [← hblocks, hdir]
    rfl
  | false =>
    have hholds : (⟨0, 0, 0⟩ : MmcWord).Holds s.mem s.sysad :=
      ⟨Nat.zero_le 3, fun i hi => absurd hi (Nat.not_lt_zero i)⟩
    have hpack : 4 ∣ s.size ∧ 0 = 0 ∨ s.size ∣ 4 ∧ s.size ∣ 0 ∨ s.blocks = 0 ∨
        s.blocks = 1 ∧ 0 = 0 := by
      rcases hwrite (by simp [hdir]) with hwords | hpart | hone
      · exact .inl ⟨hwords, rfl⟩
      · exact .inr (.inl ⟨hpart, Nat.dvd_zero _⟩)
      · rcases Nat.le_one_iff_eq_zero_or_eq_one.mp hone with hzero | hone
        · exact .inr (.inr (.inl hzero))
        · exact .inr (.inr (.inr ⟨hone, rfl⟩))
    have hrun := mmcRun_write hshift hholds hpack
    rw [← hdir] at hrun
    rw [hxfer' _ hrun]
    unfold Mmc.call MmcXfer.call MmcXfer.move
    rw [← hblocks, hdir]
    rfl

/-! ### Transfers that are right -/

/-- A transfer that is through, or that paused at the boundary and is going to be right. -/
def Mmc.Underway (s : Mmc) : Prop :=
  s.blkcnt.toNat = 0 ∨
    (s.dma ∧ s.boundaryChk.toNat ∣ s.sysad.toNat ∧
      (s.size ∣ s.boundaryChk.toNat ∨ (s.blkcnt.toNat - 1) * s.size < s.boundaryChk.toNat) ∧
      (s.isRead → 4 ∣ s.size) ∧
      (¬s.isRead → 4 ∣ s.size ∨ s.size ∣ 4 ∨ s.blkcnt.toNat ≤ 1))

/-- A call that leaves blocks has come to the boundary. -/
theorem Calls.paused {s s' : Mmc} (h : Calls s s') (hsize : 0 < s.size) :
    s'.blkcnt.toNat = 0 ∨
      (s.dma ∧ s.boundaryChk.toNat ∣ s'.sysad.toNat ∧
        ∃ i, 1 ≤ i ∧ i < s.blkcnt.toNat ∧ s.dist = i * s.size ∧
          s'.blkcnt.toNat = s.blkcnt.toNat - i) := by
  have hleft : s'.blkcnt.toNat = s.blkcnt.toNat - s.blocks := h.left
  have haddr : s'.sysad = s.sysad + BitVec.ofNat 32 (s.blocks * s.size) := h.sysad
  by_cases hhit : s.dma ∧ ∃ i, 1 ≤ i ∧ i ≤ s.blkcnt.toNat ∧ s.dist = i * s.size
  · obtain ⟨hdma, i, hi, hle, hdist⟩ := hhit
    have hblocks : s.blocks = i := by
      unfold Mmc.blocks
      rw [hdma, hdist]
      exact stopAfter_hit hsize hi hle
    rw [hblocks] at hleft haddr
    rcases Nat.eq_or_lt_of_le hle with rfl | hlt
    · exact .inl (by omega)
    · have hpos : 0 < s.boundaryChk.toNat := Nat.lt_of_lt_of_le (by decide) (boundaryChk_ge s)
      have haligned := dvd_add_toBoundary hpos (boundaryChk_dvd s) s.sysad
      refine .inr ⟨hdma, ?_, i, hi, hlt, hdist, hleft⟩
      rw [haddr, ← hdist]
      exact haligned
  · have hblocks : s.blocks = s.blkcnt.toNat := by
      refine stopAfter_miss fun hdma i hi hle heq => hhit ⟨hdma, i, hi, hle, ?_⟩
      exact Int.ofNat.inj heq
    exact .inl (by omega)

/-- A call that is right leaves a transfer that is going to be. -/
theorem Calls.underway {s s' : Mmc} (h : Calls s s') (hsize : 0 < s.size)
    (hread : s.isRead → 4 ∣ s.size)
    (hnext : s.dma → ∀ i, 1 ≤ i → i < s.blkcnt.toNat → s.dist = i * s.size →
      (s.size ∣ s.boundaryChk.toNat ∨
        (s.blkcnt.toNat - i - 1) * s.size < s.boundaryChk.toNat) ∧
      (¬s.isRead → 4 ∣ s.size ∨ s.size ∣ 4 ∨ s.blkcnt.toNat - i ≤ 1)) :
    s'.Underway := by
  rcases h.paused hsize with hdone | ⟨hdma, haligned, i, hi, hlt, hdist, hleft⟩
  · exact .inl hdone
  · obtain ⟨hpause, hwrite⟩ := hnext hdma i hi hlt hdist
    unfold Mmc.Underway
    rw [h.1.dma, h.1.boundaryChk, h.1.size, h.1.isRead, hleft]
    exact .inr ⟨hdma, haligned, hpause, hread, hwrite⟩

/-- Without blocks a call does nothing. -/
theorem call_done {s : Mmc} (hblk : s.blkcnt.toNat = 0) : s.call s.xfer = s.xfer := by
  have hnone : pauseAfter s.dma s.size s.boundaryChk.toNat s.xfer = 0 :=
    Nat.eq_zero_of_le_zero (hblk ▸ pauseAfter_le s)
  have haddr : s.sysad + BitVec.ofNat 32 0 = s.sysad := BitVec.add_zero s.sysad
  unfold Mmc.call MmcXfer.call
  dsimp only
  rw [hnone, Nat.zero_mul, Nat.sub_zero]
  cases hdir : s.isRead with
  | true =>
    show ({ s.xfer with sysad := s.sysad + BitVec.ofNat 32 0 } : MmcXfer) = s.xfer
    rw [haddr]
    rfl
  | false =>
    show ({ s.xfer with
      output := s.card.output ++ [], sysad := s.sysad + BitVec.ofNat 32 0 } : MmcXfer) = s.xfer
    rw [haddr, List.append_nil]
    rfl

/-- Resuming a transfer that is underway. -/
theorem Mmc.Underway.resume {s : Mmc} (h : s.Underway) (hsize : 0 < s.size) :
    (mmcResume s).xfer = s.call s.xfer ∧ SameSetup s (mmcResume s) ∧ (mmcResume s).Underway := by
  by_cases hblk : s.blkcnt.toNat = 0
  · have hzero : s.blkcnt = 0 := BitVec.eq_of_toNat_eq hblk
    rw [mmcResume_done hzero]
    exact ⟨(call_done hblk).symm, ⟨rfl, rfl, rfl, rfl⟩, h⟩
  · rcases h with hdone | ⟨hdma, haligned, hpause, hread, hwrite⟩
    · exact absurd hdone hblk
    have hcalls : Calls s (mmcResume s) := mmcResume_calls fun hzero => hblk (by rw [hzero]; rfl)
    have hdist : s.dist = s.boundaryChk.toNat := toBoundary_aligned haligned
    have hblocks := blocks_le s
    refine ⟨hcalls.right hsize (fun _ => ?_) hread fun hdir => ?_, hcalls.1, ?_⟩
    · rw [hdist]
      exact hpause
    · rcases hwrite hdir with hwords | hpart | hone
      · exact .inl hwords
      · exact .inr (.inl hpart)
      · exact .inr (.inr (hblocks.trans hone))
    · refine hcalls.underway hsize hread fun _ i hi hlt hd => ⟨.inl ?_, fun hdir => ?_⟩
      · rw [← hdist, hd]
        exact Nat.dvd_mul_left s.size i
      · rcases hwrite hdir with hwords | hpart | hone
        · exact .inl hwords
        · exact .inr (.inl hpart)
        · exact .inr (.inr (by omega))

/-- Starting a transfer. -/
theorem Mmc.Pauses.start {s s' : Mmc} (hpauses : s.Pauses) (hpacks : s.Packs) (h : Calls s s')
    (hsize : 0 < s.size) (hblk : 2 ≤ s.blkcnt.toNat) :
    s'.xfer = s.call s.xfer ∧ s'.Underway := by
  have hsplit : ∀ i, 1 ≤ i → i < s.blkcnt.toNat →
      (s.blkcnt.toNat - 1) * s.size = (s.blkcnt.toNat - i - 1) * s.size + i * s.size := by
    intro i hi hlt
    rw [← Nat.add_mul]
    congr 1
    omega
  -- the first call is right by itself, and leaves the next one as well placed
  refine ⟨h.right hsize (fun hdma => ?_) hpacks.1 fun hdir => ?_,
    h.underway hsize hpacks.1 fun hdma i hi hlt hdist => ⟨?_, fun hdir => ?_⟩⟩
  · rcases hpauses hdma with hlast | ⟨hdvd, -⟩
    · exact .inr hlast
    · exact .inl hdvd
  · rcases hpacks.2 hdir with hwords | hpart | ⟨hdma, -, hdist⟩
    · exact .inl hwords
    · exact .inr (.inl hpart)
    · refine .inr (.inr (Nat.le_of_eq ?_))
      unfold Mmc.blocks
      rw [hdma, hdist]
      have hhit := stopAfter_hit hsize (Nat.le_refl 1) (show 1 ≤ s.blkcnt.toNat by omega)
      rw [Nat.one_mul] at hhit
      exact hhit
  · have hmul := hsplit i hi hlt
    rcases hpauses hdma with hlast | ⟨-, hdvd | hlast⟩
    · have hmul' : (s.blkcnt.toNat - 1) * s.size < i * s.size := by omega
      have := Nat.lt_of_mul_lt_mul_right hmul'
      omega
    · exact .inl hdvd
    · exact .inr (by omega)
  · rcases hpacks.2 hdir with hwords | hpart | ⟨-, htwo, -⟩
    · exact .inl hwords
    · exact .inr (.inl hpart)
    · exact .inr (.inr (by omega))

/-- A transfer that packs its words and hits the boundary is right. -/
theorem transfer_right {s : Mmc} (hsize : 0 < s.size) (hblk : 2 ≤ s.blkcnt.toNat)
    (hready : s.isRead → s.card.ready) (hpacks : s.Packs) (hpauses : s.Pauses) : s.Right := by
  have hrun : ∀ resumes : Nat,
      SameSetup s (mmcResume^[resumes] (mmcFifoRun s)) ∧
      (mmcResume^[resumes] (mmcFifoRun s)).xfer = s.call^[resumes + 1] s.xfer ∧
      (mmcResume^[resumes] (mmcFifoRun s)).Underway := by
    intro resumes
    induction resumes with
    | zero =>
      have hcalls := mmcFifoRun_calls hready hblk
      obtain ⟨hxfer, hunderway⟩ := hpauses.start hpacks hcalls hsize hblk
      exact ⟨hcalls.1, hxfer, hunderway⟩
    | succ resumes ih =>
      obtain ⟨hsetup, hxfer, hunderway⟩ := ih
      obtain ⟨hxfer', hsetup', hunderway'⟩ := hunderway.resume (hsetup.size ▸ hsize)
      rw [Function.iterate_succ_apply']
      refine ⟨hsetup.trans hsetup', ?_, hunderway'⟩
      rw [hxfer', hsetup.call, hxfer, ← Function.iterate_succ_apply' s.call]
  exact fun resumes => (hrun resumes).2.1

end Qemu.Hw
