import Qemu.Hw.TimerDivs

namespace Qemu.Hw

open Lib

/-!
# The interrupt counter of the system timer

* `IntCount` — the ticks of a period, as the guest counts them;
* `StRight` — an operation raises the status when a period is over, and only then;
* `StRun.Counts` — a running tick has something to count, that is not too large;
* `stTick_right`, `StRun.Inv.exec` — the device follows the guest's count;
* `st_expires` — every run of such ticks.
-/

/-! ### Statements -/

/-- What has been written to ICNTB, and how many of how many ticks of a period are over; there is no
    period of zero ticks. -/
structure IntCount where
  icntb : Nat
  period : Nat
  ticks : Nat
deriving DecidableEq

/-- The ticks that are left. -/
def IntCount.left (c : IntCount) : Nat := c.period - c.ticks

/-- In auto-reload mode, a period of ICNTB + 1 ticks follows on one that is over. -/
def IntCount.load (c : IntCount) (auto : Bool) : IntCount :=
  if c.period = 0 ∧ auto then { c with period := c.icntb + 1, ticks := 0 } else c

/-- A tick, and whether it is the last one of a period. -/
def IntCount.tick (c : IntCount) : IntCount × Bool :=
  if c.period = 0 then (c, false)
  else if c.ticks + 1 = c.period then ({ c with period := 0, ticks := 0 }, true)
  else ({ c with ticks := c.ticks + 1 }, false)

/-- INT_AUTO_RELOAD -/
def SysTimer.auto (s : SysTimer) : Bool := s.tcon &&& INT_AUTO_RELOAD != 0

/-- The operation is a tick, with TIMER_RUN and INT_RUN set. -/
def SysTimer.ticks (s : SysTimer) (op : StOp) : Prop :=
  op = .expire ∧ s.stTimer.isSome ∧ s.tcon &&& TIMER_RUN ≠ 0 ∧ s.tcon &&& INT_RUN ≠ 0

instance SysTimer.ticks.decidable (s : SysTimer) (op : StOp) : Decidable (s.ticks op) :=
  inferInstanceAs (Decidable (_ ∧ _ = true ∧ _ ∧ _))

/-- The count after an operation, and whether a period is over: a manual update starts a new one, a
    reset ends it. -/
def IntCount.exec (c : IntCount) (s : SysTimer) (op : StOp) : IntCount × Bool :=
  if s.ticks op then (c.load s.auto).tick
  else match op with
    | .write 0x00 value => if value &&& TICK_SWRST ≠ 0 then (⟨0, 0, 0⟩, false) else (c, false)
    | .write 0x18 value =>
      if s.tcon &&& INT_MAN_UPD ≠ 0 then (⟨value.toNat, value.toNat + 1, 0⟩, false)
      else ({ c with icntb := value.toNat }, false)
    | _ => (c, false)

/-- The status of the counter: it has expired. -/
def SysTimer.expired (s : SysTimer) : Bool := s.intCstat &&& INTCNT_EXP_STAT != 0

/-- A write of ICNTB. -/
def StOp.isIcntb : StOp → Bool
  | .write 0x18 _ => true
  | _ => false

/-- The operation loads ICNTO. -/
def SysTimer.reloads (s : SysTimer) (op : StOp) : Prop :=
  (s.ticks op ∧ s.icnto = 0 ∧ s.auto = true) ∨
    (op.isIcntb = true ∧ s.tcon &&& INT_MAN_UPD ≠ 0)

instance SysTimer.reloads.decidable (s : SysTimer) (op : StOp) : Decidable (s.reloads op) :=
  inferInstanceAs (Decidable (_ ∨ _))

/-- The status is raised if a period is over, and not otherwise, and ICNTO does not increase between
    reloads. -/
structure StRight (s : SysTimer) (op : StOp) (ended : Bool) (s' : SysTimer) : Prop where
  raised : ended = true → s'.expired = true
  only : s'.expired = true → s.expired = true ∨ ended = true
  icnto : ¬s.reloads op → s'.icnto.toNat ≤ s.icnto.toNat

instance StRight.decidable (s : SysTimer) (op : StOp) (ended : Bool) (s' : SysTimer) :
    Decidable (StRight s op ended s') :=
  decidable_of_iff ((ended = true → s'.expired = true) ∧
      (s'.expired = true → s.expired = true ∨ ended = true) ∧
      (¬s.reloads op → s'.icnto.toNat ≤ s.icnto.toNat))
    ⟨fun h => ⟨h.1, h.2.1, h.2.2⟩, fun h => ⟨h.raised, h.only, h.icnto⟩⟩

/-- The device, the count of the guest, and whether the last operation was right. -/
structure StRun where
  st : SysTimer
  count : IntCount
  right : Bool

/-- `s5pc1xx_st_init` -/
def StRun.new (now : BitVec 64) : StRun := ⟨stReset stZero now, ⟨0, 0, 0⟩, true⟩

/-- An operation; `none` is a division by zero or an error. -/
def StRun.exec (r : StRun) (a : StOp × Clocks) : Option StRun :=
  (a.1.exec r.st a.2).toOption.map fun s =>
    ⟨s, (r.count.exec r.st a.1).1, decide (StRight r.st a.1 (r.count.exec r.st a.1).2 s)⟩

/-- A running tick has something to count, which the signed counter can hold. -/
def StRun.Counts (r : StRun) (a : StOp × Clocks) : Prop :=
  r.st.ticks a.1 → 0 < (r.count.load r.st.auto).left ∧ (r.count.load r.st.auto).left ≤ 2 ^ 31

instance StRun.Counts.decidable (r : StRun) (a : StOp × Clocks) : Decidable (r.Counts a) :=
  inferInstanceAs (Decidable (_ → _ ∧ _))

/-! ### Registers -/

variable {s s' : SysTimer} {clks : Clocks} {now : BitVec 64}

/-- The counter and its status are the same. -/
structure SysTimer.Same (s s' : SysTimer) : Prop where
  icntb : s'.icntb = s.icntb
  icnto : s'.icnto = s.icnto
  expired : s'.expired = s.expired

theorem SysTimer.Same.refl (s : SysTimer) : s.Same s := ⟨rfl, rfl, rfl⟩

theorem SysTimer.Same.trans {s₁ s₂ s₃ : SysTimer} (h : s₁.Same s₂) (h' : s₂.Same s₃) : s₁.Same s₃ :=
  ⟨h'.icntb.trans h.icntb, h'.icnto.trans h.icnto, h'.expired.trans h.expired⟩

theorem expired_or (stat mask : BitVec 32) (h : mask &&& INTCNT_EXP_STAT = 0) :
    (stat ||| mask) &&& INTCNT_EXP_STAT = stat &&& INTCNT_EXP_STAT := by
  rw [BitVec.and_or_distrib_right, h]
  exact BitVec.or_zero

theorem or_and_absorb (stat mask : BitVec 32) : (stat ||| mask) &&& mask = mask := by
  ext i hi
  simp only [BitVec.getElem_and, BitVec.getElem_or]
  cases mask[i] <;> simp

theorem stRaise_same (s : SysTimer) (enabMask : BitVec 32) {statMask : BitVec 32}
    (hicntb : statMask ≠ ICNTB_W_STAT) (hexp : statMask &&& INTCNT_EXP_STAT = 0) :
    s.Same (stRaise s enabMask statMask) := by
  refine ⟨rfl, ?_, ?_⟩
  · exact if_neg fun h => hicntb h.1
  · show ((s.intCstat ||| statMask) &&& INTCNT_EXP_STAT != 0) = _
    rw [expired_or _ _ hexp]
    rfl

theorem stSetTimer_same (h : stSetTimer s now = .ok s') : s.Same s' := by
  unfold stSetTimer at h
  cases hrem : umod (now - s.baseTime) s.tickInterval with
  | error e =>
    rw [hrem] at h
    cases h
  | ok rem =>
    rw [hrem] at h
    obtain rfl := Except.ok.inj h
    exact ⟨rfl, rfl, rfl⟩

theorem stUpdate_same (h : stUpdate s clks = .ok s') : s.Same s' := by
  rw [stUpdate_eq] at h
  cases hwhole : muldiv64 (s.ticntb.setWidth 64) ticksPerSec (stFreq s.tcfg clks) with
  | error e =>
    rw [hwhole] at h
    cases h
  | ok whole =>
    cases hpart : muldiv64 (s.tfcntb.setWidth 64) ticksPerSec (stFreq s.tcfg clks) with
    | error e =>
      rw [hwhole, hpart] at h
      cases h
    | ok part =>
      rw [hwhole, hpart] at h
      by_cases hfreq : stFreq s.tcfg clks = 0
      · have h := (if_pos hfreq).symm.trans h
        cases h
      · have h := (if_neg hfreq).symm.trans h
        obtain rfl := Except.ok.inj h
        exact ⟨rfl, rfl, rfl⟩

theorem stRun_same {value : BitVec 32} (h : stRun s value now = .ok s') : s.Same s' := by
  unfold stRun at h
  split_ifs at h
  · have hsame := stSetTimer_same h
    exact ⟨hsame.icntb, hsame.icnto, hsame.expired⟩
  · obtain rfl := Except.ok.inj h
    exact ⟨rfl, rfl, rfl⟩
  · obtain rfl := Except.ok.inj h
    exact .refl _

theorem stWriteTcon_same {value : BitVec 32} (h : stWriteTcon s value now = .ok s') :
    s.Same s' := by
  unfold stWriteTcon at h
  rw [stIrq_of_tcon, ok_bind] at h
  cases hrun : stRun (stRaise s TWIE TCON_W_STAT) value now with
  | error e =>
    rw [hrun] at h
    cases h
  | ok s₁ =>
    rw [hrun] at h
    obtain rfl := Except.ok.inj h
    have hsame := (stRaise_same s TWIE (by decide) (by decide)).trans (stRun_same hrun)
    exact ⟨hsame.icntb, hsame.icnto, hsame.expired⟩

/-- A count is written: the timer stops. -/
theorem stIrq_stop_same (s : SysTimer) (enabMask : BitVec 32) {statMask : BitVec 32}
    (hstat : statMask = TICNTB_W_STAT ∨ statMask = TFCNTB_W_STAT) (now : BitVec 64) :
    ∃ s₁, stIrq s enabMask statMask now = .ok s₁ ∧ s.Same s₁ := by
  have hrun : ¬s.tcon &&& ~~~TIMER_RUN &&& TIMER_RUN ≠ 0 := by
    rw [BitVec.and_assoc, not_not]
    exact BitVec.and_zero
  have hmask : statMask ≠ ICNTB_W_STAT ∧ statMask &&& INTCNT_EXP_STAT = 0 := by
    rcases hstat with rfl | rfl <;> decide
  unfold stIrq stTick
  rw [if_pos hstat, if_neg hrun]
  refine ⟨_, rfl, ?_⟩
  have hsame := stRaise_same { s with
    tcon := s.tcon &&& ~~~TIMER_RUN, nextPlannedTick := 0, lastTick := 0, stTimer := none }
    enabMask hmask.1 hmask.2
  exact ⟨hsame.icntb, hsame.icnto, hsame.expired⟩

/-! ### Ticks -/

/-- What the registers hold of the count. -/
structure SysTimer.Follows (s : SysTimer) (c : IntCount) : Prop where
  icntb : s.icntb = BitVec.ofNat 32 (c.icntb + 1)
  icnto : s.icnto = BitVec.ofNat 32 c.left
  idle : c.period = 0 → c.ticks = 0
  ticks : c.period ≠ 0 → c.ticks < c.period

variable {c : IntCount}

theorem SysTimer.Follows.same (h : s.Follows c) (hsame : s.Same s') : s'.Follows c :=
  ⟨hsame.icntb.trans h.icntb, hsame.icnto.trans h.icnto, h.idle, h.ticks⟩

/-- What the counter starts from at a tick. -/
theorem SysTimer.Follows.load (h : s.Follows c) (hpos : 0 < (c.load s.auto).left)
    (hle : (c.load s.auto).left ≤ 2 ^ 31) :
    (if s.icnto = 0 ∧ s.tcon &&& INT_AUTO_RELOAD ≠ 0 then s.icntb else s.icnto) =
      BitVec.ofNat 32 (c.load s.auto).left := by
  by_cases hidle : c.period = 0
  · have hleft : c.left = 0 := by rw [IntCount.left, hidle, Nat.zero_sub]
    cases hauto : s.auto with
    | false =>
      -- nothing is loaded
      rw [hauto, IntCount.load, if_neg (by simp), hleft] at hpos
      exact absurd hpos (Nat.lt_irrefl 0)
    | true =>
      have hreload : s.icnto = 0 ∧ s.tcon &&& INT_AUTO_RELOAD ≠ 0 :=
        ⟨by rw [h.icnto, hleft]; rfl, bne_iff_ne.mp hauto⟩
      rw [if_pos hreload, h.icntb, IntCount.load, if_pos ⟨hidle, rfl⟩]
      rfl
  · have hload : c.load s.auto = c := if_neg fun hload => hidle hload.1
    rw [hload] at hpos hle ⊢
    rw [if_neg, h.icnto]
    rintro ⟨hzero, -⟩
    rw [h.icnto] at hzero
    have hnat := congrArg BitVec.toNat hzero
    rw [BitVec.toNat_ofNat, Nat.mod_eq_of_lt (by omega)] at hnat
    have hzero : (0 : BitVec 32).toNat = 0 := rfl
    omega

theorem ofNat_sub_one {n : Nat} (hpos : 0 < n) :
    BitVec.ofNat 32 n - 1 = BitVec.ofNat 32 (n - 1) := by
  obtain ⟨k, rfl⟩ := Nat.exists_eq_add_of_lt hpos
  rw [Nat.zero_add, Nat.add_sub_cancel, BitVec.ofNat_add]
  exact BitVec.add_sub_cancel _ _

theorem ofNat_sle_zero {n : Nat} (hlt : n < 2 ^ 31) :
    (BitVec.ofNat 32 n).sle 0 = true ↔ n = 0 := by
  have hnat : (BitVec.ofNat 32 n).toNat = n := by
    rw [BitVec.toNat_ofNat]
    exact Nat.mod_eq_of_lt (by omega)
  have hint : (BitVec.ofNat 32 n).toInt = n := by
    rw [BitVec.toInt_eq_toNat_of_lt (by omega), hnat]
  have hzero : (0 : BitVec 32).toInt = 0 := rfl
  rw [BitVec.sle_iff_toInt_le, hint, hzero]
  omega

theorem IntCount.load_period (hpos : 0 < (c.load s.auto).left) : (c.load s.auto).period ≠ 0 := by
  intro hzero
  rw [IntCount.left, hzero, Nat.zero_sub] at hpos
  exact absurd hpos (Nat.lt_irrefl 0)

theorem IntCount.load_ticks (hpos : 0 < (c.load s.auto).left) :
    (c.load s.auto).ticks < (c.load s.auto).period ∧ (c.load s.auto).icntb = c.icntb := by
  refine ⟨Nat.lt_of_sub_pos hpos, ?_⟩
  unfold IntCount.load
  split_ifs <;> rfl

/-- The counter at a tick: it expires with the last tick of a period. -/
theorem SysTimer.Follows.count (h : s.Follows c) (hpos : 0 < (c.load s.auto).left)
    (hle : (c.load s.auto).left ≤ 2 ^ 31) :
    (stCount s).Follows (c.load s.auto).tick.1 ∧
      (stCount s).expired = (s.expired || (c.load s.auto).tick.2) ∧
      (stCount s).icnto = BitVec.ofNat 32 ((c.load s.auto).left - 1) := by
  obtain ⟨hticks, hicntb⟩ := IntCount.load_ticks hpos
  have hloaded := h.load hpos hle
  have hperiod := IntCount.load_period hpos
  unfold stCount
  dsimp only
  rw [hloaded, ofNat_sub_one hpos]
  generalize c.load s.auto = c' at *
  have hleft : c'.left = c'.period - c'.ticks := rfl
  unfold IntCount.tick
  rw [if_neg hperiod]
  by_cases hlast : c'.ticks + 1 = c'.period
  -- the last tick
  · have hone : c'.left - 1 = 0 := by omega
    rw [if_pos hlast, if_pos ((ofNat_sle_zero (by omega)).mpr hone)]
    refine ⟨⟨?_, rfl, fun _ => rfl, fun hne => absurd rfl hne⟩, ?_, ?_⟩
    · exact h.icntb.trans (by rw [hicntb])
    · rw [Bool.or_true]
      show ((s.intCstat ||| INTCNT_EXP_STAT) &&& INTCNT_EXP_STAT != 0) = true
      rw [or_and_absorb]
      decide
    · rw [hone]
      rfl
  · have hmore : ¬(BitVec.ofNat 32 (c'.left - 1)).sle 0 = true := by
      rw [ofNat_sle_zero (by omega)]
      omega
    rw [if_neg hlast, if_neg hmore]
    refine ⟨⟨?_, ?_, fun hzero => absurd hzero hperiod, fun _ => ?_⟩, ?_, rfl⟩
    · exact h.icntb.trans (by rw [hicntb])
    · show BitVec.ofNat 32 (c'.left - 1) = BitVec.ofNat 32 (c'.period - (c'.ticks + 1))
      rw [hleft, Nat.sub_sub]
    · show c'.ticks + 1 < c'.period
      omega
    · exact (Bool.or_false _).symm

/-! ### Operations -/

theorem IntCount.exec_ticks (h : s.ticks .expire) :
    c.exec s .expire = (c.load s.auto).tick :=
  if_pos h

theorem IntCount.exec_reset {value : BitVec 32} (h : value &&& TICK_SWRST ≠ 0) :
    c.exec s (.write 0x00 value) = (⟨0, 0, 0⟩, false) :=
  (if_neg fun hticks => StOp.noConfusion hticks.1).trans (if_pos h)

theorem IntCount.exec_icntb (c : IntCount) (s : SysTimer) (value : BitVec 32) :
    c.exec s (.write 0x18 value) =
      if s.tcon &&& INT_MAN_UPD ≠ 0 then (⟨value.toNat, value.toNat + 1, 0⟩, false)
      else ({ c with icntb := value.toNat }, false) :=
  if_neg fun hticks => StOp.noConfusion hticks.1

theorem StRight.same {op : StOp} (h : s.Same s') : StRight s op false s' :=
  ⟨fun hover => Bool.noConfusion hover, fun hexp => .inl (h.expired ▸ hexp),
    fun _ => by rw [h.icnto]⟩

theorem stReset_follows (s : SysTimer) (now : BitVec 64) : (stReset s now).Follows ⟨0, 0, 0⟩ :=
  ⟨rfl, rfl, fun _ => rfl, fun hne => absurd rfl hne⟩

/-- A write of ICNTB. -/
theorem stWriteIcntb_follows (h : s.Follows c) (value : BitVec 32) :
    (stRaise { s with icntb := value + 1 } IWIE ICNTB_W_STAT).Follows
      (c.exec s (.write 0x18 value)).1 := by
  have hvalue : value + 1 = BitVec.ofNat 32 (value.toNat + 1) := by
    rw [BitVec.ofNat_add, BitVec.ofNat_toNat, BitVec.setWidth_eq]
    rfl
  rw [IntCount.exec_icntb]
  by_cases hupdate : s.tcon &&& INT_MAN_UPD ≠ 0
  · rw [if_pos hupdate]
    refine ⟨hvalue, ?_, fun hzero => absurd hzero (Nat.succ_ne_zero _), fun _ => Nat.succ_pos _⟩
    exact (if_pos ⟨rfl, hupdate⟩).trans hvalue
  · rw [if_neg hupdate]
    refine ⟨hvalue, ?_, h.idle, h.ticks⟩
    exact (if_neg fun hboth => hupdate hboth.2).trans h.icnto

/-- The device does the same. -/
theorem stWriteIcntb_right (s : SysTimer) (value : BitVec 32) :
    StRight s (.write 0x18 value) false
      (stRaise { s with icntb := value + 1 } IWIE ICNTB_W_STAT) := by
  refine ⟨fun hover => Bool.noConfusion hover, fun hexp => .inl ?_, fun hreload => ?_⟩
  · rw [← hexp]
    show _ = ((s.intCstat ||| ICNTB_W_STAT) &&& INTCNT_EXP_STAT != 0)
    rw [expired_or _ _ (by decide)]
    rfl
  · have hupdate : ¬s.tcon &&& INT_MAN_UPD ≠ 0 := fun hupdate => hreload (.inr ⟨rfl, hupdate⟩)
    exact le_of_eq (congrArg BitVec.toNat (if_neg fun hboth => hupdate hboth.2))

/-- A write of INT_CSTAT only clears the status. -/
theorem stWriteIntCstat_expired (s : SysTimer) (value : BitVec 32)
    (h : (stWriteIntCstat s value).expired = true) : s.expired = true := by
  have hall : ST_ALL_STAT &&& INTCNT_EXP_STAT = INTCNT_EXP_STAT := by decide
  have hother : ~~~ST_ALL_STAT &&& INTCNT_EXP_STAT = 0 := by decide
  unfold SysTimer.expired at h ⊢
  rw [bne_iff_ne] at h ⊢
  intro hzero
  apply h
  show ((s.intCstat &&& ST_ALL_STAT ||| value &&& ~~~ST_ALL_STAT) &&&
    ~~~(value &&& ST_ALL_STAT)) &&& INTCNT_EXP_STAT = 0
  rw [BitVec.and_assoc, BitVec.and_comm (~~~_), ← BitVec.and_assoc, BitVec.and_or_distrib_right,
    BitVec.and_assoc, hall, hzero, BitVec.and_assoc value, hother]
  show (0 ||| value &&& 0) &&& _ = (0 : BitVec 32)
  simp

/-- A tick that counts. -/
theorem stTick_right (h : s.Follows c) (hticks : s.ticks .expire)
    (hpos : 0 < (c.load s.auto).left) (hle : (c.load s.auto).left ≤ 2 ^ 31)
    (hexec : StOp.expire.exec s clks = .ok s') :
    s'.Follows (c.exec s .expire).1 ∧ StRight s .expire (c.exec s .expire).2 s' := by
  rw [StOp.exec, if_pos hticks.2.1, stTick, if_pos hticks.2.2.1, if_pos hticks.2.2.2] at hexec
  have hsame := stSetTimer_same hexec
  have hfollows : SysTimer.Follows { s with stTimer := none } c :=
    ⟨h.icntb, h.icnto, h.idle, h.ticks⟩
  obtain ⟨hcount, hexp, hicnto⟩ := hfollows.count hpos hle
  rw [IntCount.exec_ticks hticks]
  refine ⟨hcount.same hsame, ⟨fun hover => ?_, fun hexpired => ?_, fun hreload => ?_⟩⟩
  · rw [hsame.expired, hexp]
    exact (congrArg _ hover).trans (Bool.or_true _)
  · rw [hsame.expired, hexp] at hexpired
    exact (Bool.or_eq_true _ _).mp hexpired
  · have hnone : ¬(s.icnto = 0 ∧ s.tcon &&& INT_AUTO_RELOAD ≠ 0) := fun hload =>
      hreload (.inl ⟨hticks, hload.1, bne_iff_ne.mpr hload.2⟩)
    have hload := h.load hpos hle
    rw [if_neg hnone] at hload
    have hicnto : s'.icnto = BitVec.ofNat 32 ((c.load s.auto).left - 1) := hsame.icnto.trans hicnto
    rw [hicnto, hload, BitVec.toNat_ofNat, BitVec.toNat_ofNat, Nat.mod_eq_of_lt (by omega),
      Nat.mod_eq_of_lt (by omega)]
    exact Nat.sub_le _ _

theorem stRead_same {offset : Nat} {value : BitVec 32} (h : stRead s offset now = .ok (value, s')) :
    s.Same s' := by
  unfold stRead at h
  split at h
  case h_4 =>
    cases hticks : stReadTicnto s now with
    | error e =>
      rw [hticks] at h
      cases h
    | ok ticks =>
      rw [hticks] at h
      cases h
      exact ⟨rfl, rfl, rfl⟩
  all_goals
    cases h
    try exact .refl _

/-- An operation that does not count, and is no reset and no write of ICNTB. -/
theorem StOp.exec_same {op : StOp} (hticks : ¬s.ticks op)
    (hreset : ∀ value, op = .write 0x00 value → value &&& TICK_SWRST = 0)
    (hicntb : ∀ value, op ≠ .write 0x18 value) (hstat : ∀ value, op ≠ .write 0x20 value)
    (hexec : op.exec s clks = .ok s') : s.Same s' := by
  cases op with
  | read offset =>
    change (stRead s offset clks.now).map Prod.snd = .ok s' at hexec
    cases hread : stRead s offset clks.now with
    | error e =>
      rw [hread] at hexec
      cases hexec
    | ok p =>
      rw [hread] at hexec
      obtain rfl := Except.ok.inj hexec
      exact stRead_same hread
  | write offset value =>
    change stWrite s offset value clks = .ok s' at hexec
    unfold stWrite at hexec
    split at hexec
    · rw [if_neg (not_not.mpr (hreset value rfl))] at hexec
      have hsame := stUpdate_same hexec
      exact ⟨hsame.icntb, hsame.icnto, hsame.expired⟩
    · exact stWriteTcon_same hexec
    · obtain ⟨s₁, hs₁, hsame₁⟩ := stIrq_stop_same s TIWIE (.inl rfl) clks.now
      rw [hs₁, ok_bind] at hexec
      have hsame := stUpdate_same hexec
      exact hsame₁.trans ⟨hsame.icntb, hsame.icnto, hsame.expired⟩
    · obtain ⟨s₁, hs₁, hsame₁⟩ := stIrq_stop_same s TFWIE (.inr rfl) clks.now
      rw [hs₁, ok_bind] at hexec
      have hsame := stUpdate_same hexec
      exact hsame₁.trans ⟨hsame.icntb, hsame.icnto, hsame.expired⟩
    · exact absurd rfl (hicntb value)
    · exact absurd rfl (hstat value)
    · cases hexec
  | expire =>
    rw [StOp.exec] at hexec
    split_ifs at hexec with hset
    · unfold stTick at hexec
      split_ifs at hexec with hrun hint
      · exact absurd ⟨rfl, hset, hrun, hint⟩ hticks
      · have hsame := stSetTimer_same hexec
        exact ⟨hsame.icntb, hsame.icnto, hsame.expired⟩
      · obtain rfl := Except.ok.inj hexec
        exact ⟨rfl, rfl, rfl⟩
    · obtain rfl := Except.ok.inj hexec
      exact .refl s

/-! ### Runs -/

variable {r r' : StRun} {a : StOp × Clocks}

/-- Every operation is right, and the device follows the count. -/
theorem StOp.exec_right (h : s.Follows c) (op : StOp)
    (hcounts : s.ticks op → 0 < (c.load s.auto).left ∧ (c.load s.auto).left ≤ 2 ^ 31)
    (hexec : op.exec s clks = .ok s') :
    s'.Follows (c.exec s op).1 ∧ StRight s op (c.exec s op).2 s' := by
  -- a tick, a reset and a new period move the count, nothing else does
  by_cases hticks : s.ticks op
  · obtain rfl := hticks.1
    exact stTick_right h hticks (hcounts hticks).1 (hcounts hticks).2 hexec
  by_cases hreset : ∃ value, op = .write 0x00 value ∧ value &&& TICK_SWRST ≠ 0
  · obtain ⟨value, rfl, hvalue⟩ := hreset
    change (if value &&& TICK_SWRST ≠ 0 then _ else _) = _ at hexec
    rw [if_pos hvalue] at hexec
    obtain rfl := Except.ok.inj hexec
    rw [IntCount.exec_reset hvalue]
    exact ⟨stReset_follows s clks.now, fun hover => Bool.noConfusion hover,
      fun hexp => absurd hexp (by simp [SysTimer.expired, stReset]), fun _ => Nat.zero_le _⟩
  by_cases hicntb : ∃ value, op = .write 0x18 value
  · obtain ⟨value, rfl⟩ := hicntb
    have hover : (c.exec s (.write 0x18 value)).2 = false := by
      rw [IntCount.exec_icntb]
      split_ifs <;> rfl
    obtain rfl := Except.ok.inj hexec
    rw [hover]
    exact ⟨stWriteIcntb_follows h value, stWriteIcntb_right s value⟩
  have hcount : c.exec s op = (c, false) := by
    unfold IntCount.exec
    rw [if_neg hticks]
    split
    · next value => exact if_neg fun hvalue => hreset ⟨value, rfl, hvalue⟩
    · next value => exact absurd ⟨value, rfl⟩ hicntb
    · rfl
  rw [hcount]
  by_cases hstat : ∃ value, op = .write 0x20 value
  · obtain ⟨value, rfl⟩ := hstat
    obtain rfl := Except.ok.inj hexec
    exact ⟨⟨h.icntb, h.icnto, h.idle, h.ticks⟩, fun hover => Bool.noConfusion hover,
      fun hexp => .inl (stWriteIntCstat_expired s value hexp), fun _ => le_rfl⟩
  · have hsame := StOp.exec_same hticks
      (fun value hop => not_not.mp fun hvalue => hreset ⟨value, hop, hvalue⟩)
      (fun value hop => hicntb ⟨value, hop⟩) (fun value hop => hstat ⟨value, hop⟩) hexec
    exact ⟨h.same hsame, .same hsame⟩

/-- What holds of every run whose ticks count. -/
def StRun.Inv (r : StRun) : Prop := r.st.Follows r.count ∧ r.right = true

theorem StRun.Inv.exec (h : r.Inv) (hcounts : r.Counts a) (hexec : r.exec a = some r') :
    r'.Inv := by
  unfold StRun.exec at hexec
  cases hop : a.1.exec r.st a.2 with
  | error e =>
    rw [hop] at hexec
    cases hexec
  | ok s =>
    rw [hop] at hexec
    obtain rfl := Option.some.inj hexec
    obtain ⟨hfollows, hright⟩ := StOp.exec_right h.1 a.1 hcounts hop
    exact ⟨hfollows, decide_eq_true hright⟩

/-- **The interrupt counter.**  In a run whose running ticks all have something to count that the
    signed counter can hold, the status is raised with the last tick of every period and with no
    other operation, and ICNTO does not increase between reloads. -/
theorem st_expires (now : BitVec 64) (ops : List (StOp × Clocks)) (r : StRun)
    (hcounts : StepsMeet StRun.exec StRun.Counts (.new now) ops)
    (hrun : runFrom StRun.exec (.new now) ops = some r) : r.right = true := by
  have hnew : (StRun.new now).Inv := ⟨stReset_follows stZero now, rfl⟩
  exact (runFrom_preserves (fun _ _ _ h hP hexec => h.exec hP hexec) hnew hcounts hrun).2

/-- The guest sets a tick of a millisecond and an ICNTB, updates the counter by hand and starts it
    with TCON; then there are two ticks, the status is cleared, and there is one more. -/
def countTicks (icntb tcon : BitVec 32) : List (StOp × Clocks) :=
  [(.write 0x08 24000, boardClocks), (.write 0x04 INT_MAN_UPD, boardClocks),
    (.write 0x18 icntb, boardClocks), (.write 0x04 (TIMER_RUN ||| INT_RUN ||| tcon), boardClocks),
    (.expire, boardClocks), (.expire, boardClocks), (.write 0x20 INTCNT_EXP_STAT, boardClocks),
    (.expire, boardClocks)]

/-- A counter that reloads itself. -/
theorem st_expires_auto : ∃ r,
    runFrom StRun.exec (.new 0) (countTicks 1 INT_AUTO_RELOAD) = some r ∧ r.right = true := by
  have hsome : (runFrom StRun.exec (.new 0) (countTicks 1 INT_AUTO_RELOAD)).isSome := by
    decide +kernel
  exact ⟨_, (Option.some_get hsome).symm,
    st_expires 0 _ _ (by decide +kernel) (Option.some_get hsome).symm⟩

/-- In one-shot mode, a counter that has expired expires again. -/
theorem st_expires_again : ¬∀ now ops r,
    runFrom StRun.exec (.new now) ops = some r → r.right = true := by
  intro h
  have hright := h 0 (countTicks 1 0) _ (Option.some_get (by decide +kernel)).symm
  revert hright
  decide +kernel

end Qemu.Hw
