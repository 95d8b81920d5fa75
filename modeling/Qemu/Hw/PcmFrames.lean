import Qemu.Hw.Pcm
import Qemu.Lib.Runs

namespace Qemu.Hw

open Lib

/-!
# The frames of the PCM interface

* `PcmLog`, `PcmOp.note` — what is accepted, presented, received and read, word by word;
* `PcmRun.Right` — the queues have bounds, frames are generated while the serial clock is enabled,
  and words go through the queues in order;
* `PcmOp.KeepsFrames` — the serial clock is not enabled, and a queue with words is not disabled;
* `pcm_frames` — the runs that are right are those of such operations.

The bit that enables the serial clock is cut off in `sclk_en`, so that there are no frames when it
is set.
-/

/-! ### What goes through the queues -/

/-- The words of a queue. -/
def pcmQueue (f : PcmFrames) : List (BitVec 16) :=
  (List.range (f.writeIdx - f.readIdx).toNat).map fun k => f.fifo ((f.readIdx.toNat + k) % 32)

/-- The words that were accepted at PCM_TXFIFO, those that were presented on SOUT for a frame, those
    that frames have received, and those that were read from PCM_RXFIFO; `frame` are the bits that
    were written to SIN in the frame so far. -/
structure PcmLog where
  accepted : List (BitVec 16)
  presented : List (BitVec 16)
  received : List (BitVec 16)
  read : List (BitVec 16)
  frame : BitVec 16

/-- Frames are generated: the timer is set, and generates one when it expires. -/
def Pcm.Running (s : Pcm) : Prop := s.pcmTimer.isSome = true ∧ s.sclkEn ≠ 0

instance Pcm.decidableRunning (s : Pcm) : Decidable s.Running :=
  inferInstanceAs (Decidable (_ ∧ _))

/-- A frame ends. -/
def pcmNoteFrame (s : Pcm) (log : PcmLog) : PcmLog where
  accepted := log.accepted
  presented :=
    if s.ctl &&& PCM_TXFIFO_EN ≠ 0 then log.presented ++ (pcmQueue s.tx).take 1 else log.presented
  received :=
    if s.ctl &&& PCM_RXFIFO_EN ≠ 0 ∧ (pcmQueue s.rx).length < 32 then log.received ++ [log.frame]
    else log.received
  read := log.read
  frame := 0

/-- A bit is written to SIN. -/
def pcmNoteSin (s : Pcm) (value : BitVec 32) (now : BitVec 64) (log : PcmLog) : PcmLog :=
  match pcmCurPos s s.rx.delay now with
  | .ok pos =>
    if s.Running ∧ s.ctl &&& PCM_RXFIFO_EN ≠ 0 ∧ pos < 16 then
      let mask := (1 : BitVec 16) <<< (15 - pos)
      { log with frame := if value &&& 1 ≠ 0 then log.frame ||| mask else log.frame &&& ~~~mask }
    else log
  | .error _ => log

/-- A word is accepted if the queue is enabled and has room. -/
def pcmNoteAccepted (s : Pcm) (value : BitVec 32) (log : PcmLog) : PcmLog :=
  if s.ctl &&& PCM_TX_DMA_EN = 0 ∨ s.ctl &&& PCM_TXFIFO_EN = 0 ∨
      s.tx.writeIdx = s.tx.readIdx + 32 then log
  else { log with accepted := log.accepted ++ [value.setWidth 16] }

/-- A word is read if the answer is marked as valid. -/
def pcmNoteRead (s : Pcm) (log : PcmLog) : PcmLog :=
  let word := (pcmReadRxfifo s).1
  if word &&& RXFIFO_DVALID = 0 then log
  else { log with read := log.read ++ [word.setWidth 16] }

/-- What an operation adds to the log. -/
def PcmOp.note (s : Pcm) (clks : Clocks) (log : PcmLog) : PcmOp → PcmLog
  | .read offset => if offset = 0x0C then pcmNoteRead s log else log
  | .write offset value =>
    if offset = 0x08 then pcmNoteAccepted s value log
    else if offset = 0x04 ∧ s.clkCtl &&& CTL_SERCLK_EN < value &&& CTL_SERCLK_EN then
      { log with frame := 0 }
    else log
  | .gpioRead _ => log
  | .gpioWrite pin value => if pin = .sin then pcmNoteSin s value clks.now log else log
  | .expire => if s.Running then pcmNoteFrame s log else log

/-- The interface and its log. -/
structure PcmRun where
  pcm : Pcm
  log : PcmLog

/-- One operation, if it does not fault. -/
def PcmRun.exec (x : PcmRun) (a : Clocks × PcmOp) : Option PcmRun :=
  (a.2.exec x.pcm a.1).toOption.map fun s => ⟨s, a.2.note x.pcm a.1 x.log⟩

/-- The start of a run. -/
def pcmRunInit : PcmRun := ⟨pcmInit, ⟨[], [], [], [], 0⟩⟩

/-! ### Runs that are right -/

/-- At most 32 words are in a queue. -/
def PcmFrames.Bounded (f : PcmFrames) : Prop :=
  f.readIdx.toNat ≤ f.writeIdx.toNat ∧ f.writeIdx.toNat ≤ f.readIdx.toNat + 32

/-- Words that were accepted wait or were presented, those that came in wait or were read, and the
    clock runs if it is enabled. -/
structure PcmRun.Right (x : PcmRun) : Prop where
  tx : x.pcm.tx.Bounded
  rx : x.pcm.rx.Bounded
  clock : x.pcm.Running ↔ x.pcm.clkCtl &&& CTL_SERCLK_EN ≠ 0
  sent : x.log.accepted = x.log.presented ++ pcmQueue x.pcm.tx
  got : x.log.received = x.log.read ++ pcmQueue x.pcm.rx

/-- The serial clock is not enabled, and words that wait are not thrown away. -/
def PcmOp.KeepsFrames (s : Pcm) : PcmOp → Prop
  | .write offset value =>
    (offset = 0x04 → value &&& CTL_SERCLK_EN = 0) ∧
      (offset = 0x00 → value &&& PCM_TXFIFO_EN < s.ctl &&& PCM_TXFIFO_EN →
        s.tx.readIdx = s.tx.writeIdx)
  | _ => True

instance PcmOp.decidableKeepsFrames (s : Pcm) : ∀ op : PcmOp, Decidable (op.KeepsFrames s)
  | .write offset value => inferInstanceAs (Decidable ((offset = 0x04 → value &&& _ = 0) ∧
      (offset = 0x00 → _ → s.tx.readIdx = s.tx.writeIdx)))
  | .read _ | .gpioRead _ | .gpioWrite _ _ | .expire => instDecidableTrue

/-- Without frames nothing leaves the queue for transmission, and the other one stays empty. -/
structure PcmRun.Waits (x : PcmRun) : Prop where
  stopped : x.pcm.Stopped
  serclk : x.pcm.clkCtl &&& CTL_SERCLK_EN = 0
  txRead : x.pcm.tx.readIdx = 0
  txWrite : x.pcm.tx.writeIdx.toNat ≤ 32
  rxRead : x.pcm.rx.readIdx = 0
  rxWrite : x.pcm.rx.writeIdx = 0
  sent : x.log.accepted = x.log.presented ++ pcmQueue x.pcm.tx
  got : x.log.received = x.log.read

section

variable {s : Pcm} {x : PcmRun}

variable {f : PcmFrames}

theorem pcmQueue_empty (h : f.readIdx = f.writeIdx) : pcmQueue f = [] := by
  unfold pcmQueue
  rw [h, BitVec.sub_self]
  rfl

theorem pcmQueue_zero (h : f.readIdx = 0) :
    pcmQueue f = (List.range f.writeIdx.toNat).map fun k => f.fifo (k % 32) := by
  unfold pcmQueue
  rw [h, show f.writeIdx - 0 = f.writeIdx from BitVec.sub_zero _]
  exact List.map_congr_left fun k _ => congrArg f.fifo (congrArg (· % 32) (Nat.zero_add k))

theorem Pcm.Stopped.not_running (h : s.Stopped) : ¬s.Running :=
  fun hrunning => hrunning.2 h

theorem PcmRun.Waits.right (h : x.Waits) : x.Right := by
  refine ⟨?_, ?_, ?_, h.sent, ?_⟩
  · unfold PcmFrames.Bounded
    rw [h.txRead]
    exact ⟨Nat.zero_le _, h.txWrite⟩
  · unfold PcmFrames.Bounded
    rw [h.rxRead, h.rxWrite]
    exact ⟨le_rfl, Nat.zero_le _⟩
  · rw [h.serclk]
    exact ⟨fun hrunning => absurd hrunning h.stopped.not_running, fun hne => absurd rfl hne⟩
  · rw [pcmQueue_empty (h.rxRead.trans h.rxWrite.symm), List.append_nil]
    exact h.got

/-! ### Interrupts and frequencies -/

/-- What the interrupts touch. -/
def Pcm.SameQueues (s s' : Pcm) : Prop :=
  s'.sclkEn = s.sclkEn ∧ s'.clkCtl = s.clkCtl ∧ s'.ctl = s.ctl ∧ s'.tx = s.tx ∧ s'.rx = s.rx

theorem Pcm.SameQueues.trans {s₁ s₂ s₃ : Pcm} (h : s₁.SameQueues s₂) (h' : s₂.SameQueues s₃) :
    s₁.SameQueues s₃ :=
  ⟨h'.1.trans h.1, h'.2.1.trans h.2.1, h'.2.2.1.trans h.2.2.1, h'.2.2.2.1.trans h.2.2.2.1,
    h'.2.2.2.2.trans h.2.2.2.2⟩

theorem pcmMark_same (s : Pcm) (cond : Prop) [Decidable cond] (bits : BitVec 32 × BitVec 32) :
    s.SameQueues (pcmMark s cond bits) := by
  unfold pcmMark
  split_ifs <;> exact ⟨rfl, rfl, rfl, rfl, rfl⟩

theorem pcmControl_same (s : Pcm) (f : PcmFrames) (bits : PcmBits) :
    s.SameQueues (pcmControl s f bits) := by
  unfold pcmControl
  exact (((pcmMark_same _ _ _).trans (pcmMark_same _ _ _)).trans (pcmMark_same _ _ _)).trans
    (pcmMark_same _ _ _)

variable {s' : Pcm}

/-- Nothing happens that the log or the queues notice. -/
theorem PcmRun.Waits.of_same (h : x.Waits) (hsame : x.pcm.SameQueues s') :
    (⟨s', x.log⟩ : PcmRun).Waits := by
  obtain ⟨hsclk, hclk, -, htx, hrx⟩ := hsame
  refine ⟨hsclk.trans h.stopped, ?_, ?_, ?_, ?_, ?_, ?_, h.got⟩
  · show s'.clkCtl &&& _ = 0
    rw [hclk]
    exact h.serclk
  · show s'.tx.readIdx = 0
    rw [htx]
    exact h.txRead
  · show s'.tx.writeIdx.toNat ≤ 32
    rw [htx]
    exact h.txWrite
  · show s'.rx.readIdx = 0
    rw [hrx]
    exact h.rxRead
  · show s'.rx.writeIdx = 0
    rw [hrx]
    exact h.rxWrite
  · show _ = x.log.presented ++ pcmQueue s'.tx
    rw [htx]
    exact h.sent

theorem pcmSclkUpdate_same (s : Pcm) (clks : Clocks) :
    Ends (fun s' => s'.sclkEn = s.sclkEn ∧ s'.clkCtl = s.clkCtlNow ∧ s'.ctl = s.ctl ∧
        s'.tx = s.tx ∧ s'.rx = s.rx)
      (fun _ => True) (pcmSclkUpdate s clks) := by
  unfold pcmSclkUpdate
  refine Ends.bind (.any _) fun sclk _ => ?_
  refine Ends.ite (fun _ => .error trivial) fun _ => ?_
  exact Ends.map (.any _) fun sync _ => ⟨rfl, rfl, rfl, rfl, rfl⟩

theorem Pcm.clkCtlNow_serclk (h : s.clkCtl &&& CTL_SERCLK_EN = 0) :
    s.clkCtlNow &&& CTL_SERCLK_EN = 0 := by
  unfold Pcm.clkCtlNow
  split_ifs
  · decide
  · exact h

/-! ### Registers -/

theorem pcmQueue_setFrames (f : PcmFrames) (clear msb : Bool) (dipstick : BitVec 32) :
    pcmQueue (pcmSetFrames f clear msb dipstick) = if clear then [] else pcmQueue f := by
  cases clear with
  | true => exact pcmQueue_empty rfl
  | false => rfl

theorem pcmSetFrames_readIdx (h : f.readIdx = 0) (clear msb : Bool) (dipstick : BitVec 32) :
    (pcmSetFrames f clear msb dipstick).readIdx = 0 := by
  cases clear with
  | true => rfl
  | false => exact h

theorem pcmSetFrames_writeIdx (f : PcmFrames) (clear msb : Bool) (dipstick : BitVec 32) :
    (pcmSetFrames f clear msb dipstick).writeIdx.toNat ≤ f.writeIdx.toNat := by
  cases clear with
  | true => exact Nat.zero_le _
  | false => exact le_rfl

variable {clks : Clocks} {value : BitVec 32}

/-- What a write of PCM_CTL does to the queues. -/
theorem pcmWriteCtl_same (hs' : pcmWriteCtl s value clks = .ok s') :
    s'.sclkEn = s.sclkEn ∧
      (s.clkCtl &&& CTL_SERCLK_EN = 0 → s'.clkCtl &&& CTL_SERCLK_EN = 0) ∧
      s'.rx = pcmSetFrames s.rx (value &&& PCM_RXFIFO_EN < s.ctl &&& PCM_RXFIFO_EN)
        (value &&& RX_MSB_POS != 0) (value >>> RXFIFO_DIPSTICK_SHIFT) ∧
      s'.tx = pcmSetFrames s.tx (value &&& PCM_TXFIFO_EN < s.ctl &&& PCM_TXFIFO_EN)
        (value &&& TX_MSB_POS != 0) (value >>> TXFIFO_DIPSTICK_SHIFT) := by
  have hdisable : Ends (fun s₁ : Pcm => s₁.sclkEn = s.sclkEn ∧
      (s.clkCtl &&& CTL_SERCLK_EN = 0 → s₁.clkCtl &&& CTL_SERCLK_EN = 0) ∧ s₁.ctl = s.ctl ∧
      s₁.tx = s.tx ∧ s₁.rx = s.rx) (fun _ => True) (pcmDisable s value clks) := by
    refine Ends.ite (fun _ => ?_) fun _ => .ok ⟨rfl, id, rfl, rfl, rfl⟩
    refine (pcmSclkUpdate_same _ clks).mono ?_ fun _ _ => trivial
    rintro s₁ ⟨hsclk, hclk, hctl, htx, hrx⟩
    refine ⟨hsclk, fun hzero => ?_, hctl, htx, hrx⟩
    rw [hclk]
    exact Pcm.clkCtlNow_serclk hzero
  have hctl : Ends (fun s' : Pcm => s'.sclkEn = s.sclkEn ∧
      (s.clkCtl &&& CTL_SERCLK_EN = 0 → s'.clkCtl &&& CTL_SERCLK_EN = 0) ∧
      s'.rx = pcmSetFrames s.rx (value &&& PCM_RXFIFO_EN < s.ctl &&& PCM_RXFIFO_EN)
        (value &&& RX_MSB_POS != 0) (value >>> RXFIFO_DIPSTICK_SHIFT) ∧
      s'.tx = pcmSetFrames s.tx (value &&& PCM_TXFIFO_EN < s.ctl &&& PCM_TXFIFO_EN)
        (value &&& TX_MSB_POS != 0) (value >>> TXFIFO_DIPSTICK_SHIFT)) (fun _ => True)
      (pcmWriteCtl s value clks) := by
    refine hdisable.map ?_
    rintro s₁ ⟨hsclk, hclk, hctl, htx, hrx⟩
    dsimp only
    rw [hctl, htx, hrx]
    exact ⟨hsclk, hclk, rfl, rfl⟩
  exact hctl.of_eq_ok hs'

/-- A write of PCM_CTL that throws no words away. -/
theorem PcmRun.Waits.writeCtl (h : x.Waits) {value : BitVec 32} {clks : Clocks} {s' : Pcm}
    (hkeeps : value &&& PCM_TXFIFO_EN < x.pcm.ctl &&& PCM_TXFIFO_EN →
      x.pcm.tx.readIdx = x.pcm.tx.writeIdx)
    (hs' : pcmWriteCtl x.pcm value clks = .ok s') : (⟨s', x.log⟩ : PcmRun).Waits := by
  obtain ⟨hsclk, hclk, hrx, htx⟩ := pcmWriteCtl_same hs'
  refine ⟨hsclk.trans h.stopped, hclk h.serclk, ?_, ?_, ?_, ?_, ?_, h.got⟩
  · show s'.tx.readIdx = 0
    rw [htx]
    exact pcmSetFrames_readIdx h.txRead _ _ _
  · show s'.tx.writeIdx.toNat ≤ 32
    rw [htx]
    exact (pcmSetFrames_writeIdx _ _ _ _).trans h.txWrite
  · show s'.rx.readIdx = 0
    rw [hrx]
    exact pcmSetFrames_readIdx h.rxRead _ _ _
  · show s'.rx.writeIdx = 0
    have hle := pcmSetFrames_writeIdx x.pcm.rx
      (value &&& PCM_RXFIFO_EN < x.pcm.ctl &&& PCM_RXFIFO_EN) (value &&& RX_MSB_POS != 0)
      (value >>> RXFIFO_DIPSTICK_SHIFT)
    rw [h.rxWrite] at hle
    rw [hrx]
    exact BitVec.eq_of_toNat_eq (Nat.le_zero.mp hle)
  · show _ = x.log.presented ++ pcmQueue s'.tx
    rw [htx, pcmQueue_setFrames, h.sent]
    split_ifs with hclear
    · rw [pcmQueue_empty (hkeeps (of_decide_eq_true hclear))]
    · rfl

/-- A write of PCM_CTL that throws words away. -/
theorem pcmWriteCtl_loses (h : x.Waits)
    (hclear : value &&& PCM_TXFIFO_EN < x.pcm.ctl &&& PCM_TXFIFO_EN)
    (hwords : x.pcm.tx.readIdx ≠ x.pcm.tx.writeIdx) (hs' : pcmWriteCtl x.pcm value clks = .ok s') :
    ¬(⟨s', x.log⟩ : PcmRun).Right := by
  intro hright
  have hsent : x.log.accepted = x.log.presented ++ pcmQueue s'.tx := hright.sent
  rw [(pcmWriteCtl_same hs').2.2.2, pcmQueue_setFrames, if_pos (decide_eq_true hclear), h.sent]
    at hsent
  have hnil := List.append_cancel_left hsent
  rw [pcmQueue_zero h.txRead, List.map_eq_nil_iff, List.range_eq_nil] at hnil
  exact hwords (h.txRead.trans (BitVec.eq_of_toNat_eq hnil.symm))

/-- The serial clock stays off after a write of PCM_CLKCTL, whatever the value is. -/
theorem pcmWriteClkctl_same (s : Pcm) (value : BitVec 32) (clks : Clocks) :
    Ends (fun s' => s'.Stopped ∧ s'.clkCtl = value ∧
        (¬s.clkCtl &&& CTL_SERCLK_EN < value &&& CTL_SERCLK_EN → s'.tx = s.tx ∧ s'.rx = s.rx))
      (fun _ => True) (pcmWriteClkctl s value clks) := by
  have henable : Ends (fun s₁ : Pcm =>
      ¬s.clkCtl &&& CTL_SERCLK_EN < value &&& CTL_SERCLK_EN → s₁.tx = s.tx ∧ s₁.rx = s.rx)
      (fun _ => True) (pcmEnable s value clks) := by
    refine Ends.ite (fun hrise => ?_) fun _ => .ok fun _ => ⟨rfl, rfl⟩
    exact (Ends.any _).mono (fun s₁ _ hn => absurd hrise hn) fun _ _ => trivial
  refine Ends.bind henable fun s₁ h₁ => ?_
  have hupdate : Ends (fun s₂ : Pcm => s₂.Stopped ∧ s₂.tx = s₁.tx ∧ s₂.rx = s₁.rx) (fun _ => True)
      (pcmClkUpdate { s₁ with
        sclkEn := (if value &&& CTL_SERCLK_EN ≠ 0 then value &&& CTL_SERCLK_EN else 0).setWidth 8 }
        value clks) := by
    refine Ends.ite (fun _ => ?_) fun _ => .ok ⟨serclk_cut value, rfl, rfl⟩
    exact (pcmSclkUpdate_same _ clks).mono
      (fun s' hs' => ⟨hs'.1.trans (serclk_cut value), hs'.2.2.2.1, hs'.2.2.2.2⟩) fun _ _ => trivial
  refine Ends.bind hupdate fun s₂ h₂ => .ok ⟨h₂.1, rfl, fun hn => ?_⟩
  exact ⟨h₂.2.1.trans (h₁ hn).1, h₂.2.2.trans (h₁ hn).2⟩

/-- A word is put behind those that wait. -/
theorem pcmNextIn_queue {f f' : PcmFrames} (hread : f.readIdx = 0) (hlt : f.writeIdx.toNat < 32)
    {word : BitVec 16} (hf' : f' =
      pcmNextIn { f with fifo := Function.update f.fifo (f.writeIdx % 32).toNat word }) :
    f'.readIdx = 0 ∧ f'.writeIdx.toNat = f.writeIdx.toNat + 1 ∧
      pcmQueue f' = pcmQueue f ++ [word] := by
  have hidx : (f.writeIdx % 32).toNat = f.writeIdx.toNat := by
    rw [BitVec.toNat_umod]
    exact Nat.mod_eq_of_lt hlt
  have hnext : (f.writeIdx + 1).toNat = f.writeIdx.toNat + 1 := by
    rw [BitVec.toNat_add]
    exact Nat.mod_eq_of_lt (Nat.lt_trans (Nat.succ_lt_succ hlt) (by decide))
  have hroom : f.writeIdx < f.readIdx + 32 := by
    rw [hread, BitVec.lt_def]
    exact hlt
  rw [pcmNextIn, if_pos hroom, hidx] at hf'
  have hread' : f'.readIdx = 0 := by
    rw [hf']
    exact hread
  have hwrite : f'.writeIdx.toNat = f.writeIdx.toNat + 1 := by
    rw [hf']
    exact hnext
  refine ⟨hread', hwrite, ?_⟩
  rw [pcmQueue_zero hread', pcmQueue_zero hread, hwrite, List.range_succ, List.map_append,
    List.map_singleton, Nat.mod_eq_of_lt hlt, hf']
  dsimp only
  rw [Function.update_self]
  refine congrArg (· ++ _) (List.map_congr_left fun k hk => ?_)
  have hk := List.mem_range.mp hk
  exact Function.update_of_ne (by omega) _ _

/-- A word is accepted. -/
theorem PcmRun.Waits.writeTxfifo (h : x.Waits) (value : BitVec 32) :
    (⟨pcmWriteTxfifo x.pcm value, pcmNoteAccepted x.pcm value x.log⟩ : PcmRun).Waits := by
  unfold pcmWriteTxfifo pcmNoteAccepted
  by_cases hoff : x.pcm.ctl &&& PCM_TX_DMA_EN = 0 ∨ x.pcm.ctl &&& PCM_TXFIFO_EN = 0
  · rw [if_pos hoff, if_pos (hoff.imp_right Or.inl)]
    exact h
  rw [if_neg hoff]
  by_cases hfull : x.pcm.tx.writeIdx = x.pcm.tx.readIdx + 32
  · rw [if_pos hfull, if_pos (.inr (.inr hfull))]
    exact h.of_same ⟨rfl, rfl, rfl, rfl, rfl⟩
  rw [if_neg hfull, if_neg (by tauto)]
  have hlt : x.pcm.tx.writeIdx.toNat < 32 := by
    refine lt_of_le_of_ne h.txWrite fun heq => hfull ?_
    rw [h.txRead]
    exact BitVec.eq_of_toNat_eq heq
  have hput := fun f' => @pcmNextIn_queue x.pcm.tx f' h.txRead hlt (value.setWidth 16)
  obtain ⟨hread, hwrite, hqueue⟩ := hput _ rfl
  dsimp only
  generalize pcmNextIn _ = f at hread hwrite hqueue ⊢
  have hwaits : (⟨{ x.pcm with tx := f },
      { x.log with accepted := x.log.accepted ++ [value.setWidth 16] }⟩ : PcmRun).Waits := by
    refine ⟨h.stopped, h.serclk, hread, ?_, h.rxRead, h.rxWrite, ?_, h.got⟩
    · show f.writeIdx.toNat ≤ 32
      rw [hwrite]
      exact hlt
    · show _ = x.log.presented ++ pcmQueue f
      rw [hqueue, h.sent, List.append_assoc]
  exact hwaits.of_same (pcmControl_same _ _ _)

theorem PcmRun.Waits.readRxfifo (h : x.Waits) :
    (⟨(pcmReadRxfifo x.pcm).2, pcmNoteRead x.pcm x.log⟩ : PcmRun).Waits := by
  have hread : (pcmReadRxfifo x.pcm).1 = 0 ∧ x.pcm.SameQueues (pcmReadRxfifo x.pcm).2 := by
    unfold pcmReadRxfifo
    rw [if_pos (h.rxRead.trans h.rxWrite.symm)]
    split_ifs <;> exact ⟨rfl, rfl, rfl, rfl, rfl, rfl⟩
  unfold pcmNoteRead
  rw [hread.1]
  exact h.of_same hread.2

theorem PcmRun.Waits.putRxfifo (h : x.Waits) (value : BitVec 32) :
    (⟨pcmPutRxfifo x.pcm value, x.log⟩ : PcmRun).Waits := by
  unfold pcmPutRxfifo
  split_ifs
  · exact h
  · exact ⟨h.stopped, h.serclk, h.txRead, h.txWrite, h.rxRead, h.rxWrite, h.sent, h.got⟩

/-- A write of PCM_CLKCTL that does not enable the serial clock. -/
theorem PcmRun.Waits.writeClkctl (h : x.Waits) (hkeeps : value &&& CTL_SERCLK_EN = 0)
    (hs' : pcmWriteClkctl x.pcm value clks = .ok s') : (⟨s', x.log⟩ : PcmRun).Waits := by
  obtain ⟨hstopped, hclk, hsame⟩ := (pcmWriteClkctl_same x.pcm value clks).of_eq_ok hs'
  obtain ⟨htx, hrx⟩ := hsame (by rw [hkeeps]; exact Nat.not_lt_zero _)
  have hserclk : s'.clkCtl &&& CTL_SERCLK_EN = 0 := by
    rw [hclk]
    exact hkeeps
  refine ⟨hstopped, hserclk, ?_, ?_, ?_, ?_, ?_, h.got⟩
  · exact (congrArg PcmFrames.readIdx htx).trans h.txRead
  · exact (congrArg (fun f : PcmFrames => f.writeIdx.toNat) htx).trans_le h.txWrite
  · exact (congrArg PcmFrames.readIdx hrx).trans h.rxRead
  · exact (congrArg PcmFrames.writeIdx hrx).trans h.rxWrite
  · show _ = x.log.presented ++ pcmQueue s'.tx
    rw [htx]
    exact h.sent

/-! ### Operations -/

/-- A write that keeps frames. -/
theorem PcmRun.Waits.write (h : x.Waits) {offset : Nat}
    (hkeeps : (PcmOp.write offset value).KeepsFrames x.pcm)
    (hs' : pcmWrite x.pcm offset value clks = .ok s') :
    (⟨s', (PcmOp.write offset value).note x.pcm clks x.log⟩ : PcmRun).Waits := by
  obtain ⟨hclkctl, hctl⟩ := hkeeps
  have hnote : (PcmOp.write offset value).note x.pcm clks x.log =
      if offset = 0x08 then pcmNoteAccepted x.pcm value x.log else x.log := by
    unfold PcmOp.note
    dsimp only
    split_ifs with htx hrise
    · rfl
    · rw [hclkctl hrise.1] at hrise
      exact absurd hrise.2 (Nat.not_lt_zero _)
    · rfl
  rw [hnote]
  unfold pcmWrite at hs'
  split at hs'
  case h_1 => exact h.writeCtl (hctl rfl) hs'
  case h_2 => exact h.writeClkctl (hclkctl rfl) hs'
  case h_3 =>
    obtain rfl := Except.ok.inj hs'
    exact h.writeTxfifo value
  case h_4 =>
    obtain rfl := Except.ok.inj hs'
    exact h.putRxfifo value
  case h_5 =>
    obtain rfl := Except.ok.inj hs'
    exact h.of_same ⟨rfl, rfl, rfl, rfl, rfl⟩
  case h_6 =>
    obtain rfl := Except.ok.inj hs'
    exact h.of_same ⟨rfl, rfl, rfl, rfl, rfl⟩
  case h_7 => cases hs'

/-- A read that returns a frame notes it. -/
theorem PcmRun.Waits.readReg (h : x.Waits) {offset : Nat}
    (hs' : (pcmRead x.pcm offset).map Prod.snd = .ok s') :
    (⟨s', (PcmOp.read offset).note x.pcm clks x.log⟩ : PcmRun).Waits := by
  unfold PcmOp.note
  by_cases hrx : offset = 0x0C
  · subst hrx
    obtain rfl := Except.ok.inj hs'
    exact h.readRxfifo
  · dsimp only
    rw [if_neg hrx]
    have hsame : Ends (fun r : BitVec 32 × Pcm => r.2 = x.pcm) (fun _ => True)
        (pcmRead x.pcm offset) := by
      unfold pcmRead
      split
      case h_3 => exact Ends.ite (fun _ => .ok rfl) fun _ => .ok rfl
      case h_4 => exact absurd rfl hrx
      case h_8 => exact .error trivial
      all_goals exact .ok rfl
    obtain rfl := (hsame.map (Q := fun s => s = x.pcm) fun r hr => hr).of_eq_ok hs'
    exact h

theorem pcmNoteSin_stopped (h : s.Stopped) (value : BitVec 32) (now : BitVec 64) (log : PcmLog) :
    pcmNoteSin s value now log = log := by
  unfold pcmNoteSin
  split
  · exact if_neg fun hrunning => h.not_running hrunning.1
  · rfl

variable {a : Clocks × PcmOp} {x' : PcmRun}

theorem PcmRun.exec_eq (hx' : x.exec a = some x') :
    ∃ s', a.2.exec x.pcm a.1 = .ok s' ∧ x' = ⟨s', a.2.note x.pcm a.1 x.log⟩ := by
  obtain ⟨s', hs', rfl⟩ := Option.map_eq_some_iff.mp hx'
  cases hop : a.2.exec x.pcm a.1 with
  | error e =>
    rw [hop] at hs'
    cases hs'
  | ok s =>
    rw [hop] at hs'
    obtain rfl := Option.some.inj hs'
    exact ⟨s, rfl, rfl⟩

/-- An operation that keeps frames. -/
theorem PcmRun.Waits.exec (h : x.Waits) (hkeeps : a.2.KeepsFrames x.pcm)
    (hx' : x.exec a = some x') : x'.Waits := by
  obtain ⟨clks, op⟩ := a
  obtain ⟨s', hs', rfl⟩ := PcmRun.exec_eq hx'
  -- only a write to a register can start the clock
  cases op with
  | read offset => exact h.readReg hs'
  | write offset value => exact h.write hkeeps hs'
  | gpioRead pin =>
    have hread : (pcmGpioRead x.pcm pin clks.now).map Prod.snd = .ok s' := hs'
    rw [pcmGpioRead_eq h.stopped] at hread
    obtain rfl := Except.ok.inj hread
    exact h
  | gpioWrite pin value =>
    have hwrite : pcmGpioWrite x.pcm pin value clks.now = .ok s' := hs'
    rw [pcmGpioWrite_eq h.stopped] at hwrite
    obtain rfl := Except.ok.inj hwrite
    have hnote : (PcmOp.gpioWrite pin value).note x.pcm clks x.log = x.log := by
      unfold PcmOp.note
      dsimp only
      split_ifs
      · exact pcmNoteSin_stopped h.stopped _ _ _
      · rfl
    dsimp only
    rw [hnote]
    exact h
  | expire =>
    have hexpire : (if x.pcm.pcmTimer.isSome then pcmSync { x.pcm with pcmTimer := none } clks
        else .ok x.pcm) = .ok s' := hs'
    have hnote : PcmOp.expire.note x.pcm clks x.log = x.log := if_neg h.stopped.not_running
    have hstays : ¬({ x.pcm with pcmTimer := none } : Pcm).sclkEn ≠ 0 := not_not.mpr h.stopped
    rw [pcmSync, if_neg hstays] at hexpire
    dsimp only
    rw [hnote]
    split_ifs at hexpire
    · obtain rfl := Except.ok.inj hexpire
      exact h.of_same ⟨rfl, rfl, rfl, rfl, rfl⟩
    · obtain rfl := Except.ok.inj hexpire
      exact h

/-- An operation that does not keep frames. -/
theorem PcmRun.Waits.breaks (h : x.Waits) (hbreaks : ¬a.2.KeepsFrames x.pcm)
    (hx' : x.exec a = some x') : ¬x'.Right := by
  obtain ⟨clks, op⟩ := a
  obtain ⟨s', hs', rfl⟩ := PcmRun.exec_eq hx'
  cases op with
  | read offset => exact absurd trivial hbreaks
  | gpioRead pin => exact absurd trivial hbreaks
  | gpioWrite pin value => exact absurd trivial hbreaks
  | expire => exact absurd trivial hbreaks
  | write offset value =>
    simp only [PcmOp.KeepsFrames, not_and_or, Classical.not_imp] at hbreaks
    rcases hbreaks with ⟨rfl, hset⟩ | ⟨rfl, hclear, hwords⟩
    -- the serial clock is enabled, and `sclk_en` is 0
    · obtain ⟨hstopped, hclk, -⟩ := (pcmWriteClkctl_same x.pcm value clks).of_eq_ok hs'
      intro hright
      refine hstopped.not_running (hright.clock.mpr ?_)
      dsimp only
      rw [hclk]
      exact hset
    · exact pcmWriteCtl_loses h hclear hwords hs'

theorem pcmRunInit_waits : pcmRunInit.Waits :=
  ⟨rfl, by decide, rfl, Nat.zero_le _, rfl, rfl, rfl, rfl⟩

end

/-- **Frames.**  In a run that is not ended, the queues keep their bounds, frames are generated
    while the serial clock is enabled, and every word goes through its queue in order, just if no
    write enables the serial clock, and none disables the queue for transmission while words
    wait. -/
theorem pcm_frames {ops : List (Clocks × PcmOp)} {x : PcmRun}
    (hrun : runFrom PcmRun.exec pcmRunInit ops = some x) :
    (∀ n x', runFrom PcmRun.exec pcmRunInit (ops.take n) = some x' → x'.Right) ↔
      StepsMeet PcmRun.exec (fun x a => a.2.KeepsFrames x.pcm) pcmRunInit ops :=
  runFrom_all_iff (I := PcmRun.Waits) (fun _ => PcmRun.Waits.right)
    (fun _ _ _ h hkeeps hx' => h.exec hkeeps hx') (fun _ _ _ h hbreaks hx' => h.breaks hbreaks hx')
    pcmRunInit_waits hrun

/-- All clocks run at 66 MHz. -/
def pcmClocks : Clocks where
  now := 1
  rate := fun _ => 66000000
  rate_pos := fun _ => by decide

/-- One word is sent. -/
def pcmSendOne : List (Clocks × PcmOp) :=
  [(pcmClocks, .write 0x00 (PCM_TX_DMA_EN ||| PCM_TXFIFO_EN)), (pcmClocks, .write 0x08 0x1234)]

/-- It waits in its queue. -/
theorem pcm_frames_waits :
    StepsMeet PcmRun.exec (fun x a => a.2.KeepsFrames x.pcm) pcmRunInit pcmSendOne ∧
      ∀ n x', runFrom PcmRun.exec pcmRunInit (pcmSendOne.take n) = some x' → x'.Right := by
  have hmeet : StepsMeet PcmRun.exec (fun x a => a.2.KeepsFrames x.pcm) pcmRunInit pcmSendOne := by
    decide +kernel
  exact ⟨hmeet, (pcm_frames (Option.some_get (by decide +kernel :
    (runFrom PcmRun.exec pcmRunInit pcmSendOne).isSome)).symm).mpr hmeet⟩

/-- When the serial clock is enabled there are no frames, and the word is gone. -/
theorem pcm_frames_lost :
    ∃ x, runFrom PcmRun.exec pcmRunInit
      (pcmSendOne ++ [(pcmClocks, .write 0x04 CTL_SERCLK_EN)]) = some x ∧
      ¬(x.pcm.Running ↔ x.pcm.clkCtl &&& CTL_SERCLK_EN ≠ 0) ∧
      x.log.accepted ≠ x.log.presented ++ pcmQueue x.pcm.tx := by
  refine ⟨_, rfl, ?_, ?_⟩
  · decide +kernel
  · decide +kernel

end Qemu.Hw
