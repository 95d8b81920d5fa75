import Qemu.Hw.Otg

namespace Qemu.Hw

open Lib

/-!
# The interrupts of the USB OTG controller

* `Otg.Right` — the three levels of interrupts agree;
* `Otg.RightBut` — they do, up to an endpoint and the line: `otgEpUpdateIrq` puts these right;
* `OtgOp.Settles` — the write is no reset while an endpoint interrupts, and no write of the mask
  that would change the line;
* `otg_interrupts` — in a run of such operations the levels always agree.
-/

/-- A bit of `daint_sts` of the direction is set, and not masked. -/
def Otg.Unmasked (s : Otg) (dir : OtgDir) : Prop :=
  ∃ n, s.daintSts.getLsbD (dir.daint n) = true ∧ s.daintMsk.getLsbD (dir.daint n) = true

/-- The endpoints and the controller agree. -/
structure Otg.Counted (s : Otg) : Prop where
  daint : ∀ dir n, s.daintSts.getLsbD (dir.daint n) = true ↔ (s.ep dir n).interrupt ≠ 0
  epint : ∀ dir, s.gintSts.getLsbD dir.epint = true ↔ s.Unmasked dir

/-- The levels of interrupts agree. -/
structure Otg.Right (s : Otg) : Prop extends s.Counted where
  line : s.irq = true ↔ s.gintSts &&& s.gintMsk ≠ 0

/-- They agree, up to an endpoint, its direction and the line. -/
structure Otg.RightBut (s : Otg) (dir : OtgDir) (n : Fin 16) : Prop where
  daint : ∀ dir' n', dir' ≠ dir ∨ n' ≠ n →
    (s.daintSts.getLsbD (dir'.daint n') = true ↔ (s.ep dir' n').interrupt ≠ 0)
  epint : ∀ dir', dir' ≠ dir → (s.gintSts.getLsbD dir'.epint = true ↔ s.Unmasked dir')

/-! ### Bits -/

theorem OtgDir.daint_lt (dir : OtgDir) (n : Fin 16) : dir.daint n < 32 := by
  have hn := n.isLt
  cases dir
  · show n.val < 32
    omega
  · show n.val + 16 < 32
    omega

variable {dir dir' : OtgDir} {n : Fin 16}

theorem OtgDir.daint_inj {n' : Fin 16} (h : dir.daint n = dir'.daint n') : dir = dir' ∧ n = n' := by
  have hn := n.isLt
  have hn' := n'.isLt
  cases dir <;> cases dir' <;> simp only [OtgDir.daint] at h
  · exact ⟨rfl, Fin.ext h⟩
  · omega
  · omega
  · exact ⟨rfl, Fin.ext (Nat.add_right_cancel h)⟩

theorem OtgDir.epint_ne (h : dir' ≠ dir) : dir'.epint ≠ dir.epint := by
  cases dir <;> cases dir' <;> first | exact absurd rfl h | decide

theorem getLsbD_otgPutBit {x : BitVec 32} {i j : Nat} {b : Bool} (hi : i < 32) :
    (otgPutBit x i b).getLsbD j = if j = i then b else x.getLsbD j := by
  unfold otgPutBit
  by_cases hj : j = i
  · subst hj
    cases b <;> simp [hi]
  · have hj' : ¬i = j := fun h => hj h.symm
    by_cases hlt : j < 32
    · cases b <;> simp [hj, hlt]
    · have hx : x.getLsbD j = false := BitVec.getLsbD_of_ge x j (Nat.le_of_not_lt hlt)
      cases b <;> simp [BitVec.getLsbD_twoPow, hj, hj', hx]

theorem exists_daint {i : Nat} (hi : i < 32) : ∃ dir n, i = OtgDir.daint dir n := by
  by_cases hin : i < 16
  · exact ⟨.dirIn, ⟨i, hin⟩, rfl⟩
  · exact ⟨.dirOut, ⟨i - 16, by omega⟩, (Nat.sub_add_cancel (Nat.le_of_not_lt hin)).symm⟩

theorem OtgDir.getLsbD_half (dir dir' : OtgDir) (n : Fin 16) :
    dir.half.getLsbD (dir'.daint n) = decide (dir' = dir) := by
  revert n
  cases dir <;> cases dir' <;> decide

theorem ne_zero_iff_exists {x : BitVec 32} : x ≠ 0 ↔ ∃ i, x.getLsbD i = true := by
  constructor
  · exact fun h => ⟨_, BitVec.getLsbD_true_ctz_of_ne_zero h⟩
  · rintro ⟨i, hi⟩ rfl
    simp at hi

/-- The test for an interrupt of a direction that is not masked. -/
theorem masked_iff (x msk : BitVec 32) (dir : OtgDir) :
    x &&& msk &&& dir.half ≠ 0 ↔
      ∃ n, x.getLsbD (dir.daint n) = true ∧ msk.getLsbD (dir.daint n) = true := by
  rw [ne_zero_iff_exists]
  simp only [BitVec.getLsbD_and, Bool.and_eq_true]
  constructor
  · rintro ⟨i, ⟨hx, hmsk⟩, hhalf⟩
    obtain ⟨dir', n, rfl⟩ := exists_daint (BitVec.lt_of_getLsbD hx)
    rw [OtgDir.getLsbD_half, decide_eq_true_iff] at hhalf
    subst hhalf
    exact ⟨n, hx, hmsk⟩
  · rintro ⟨n, hx, hmsk⟩
    refine ⟨dir.daint n, ⟨hx, hmsk⟩, ?_⟩
    rw [OtgDir.getLsbD_half, decide_eq_true_iff]

theorem Otg.unmasked_iff (s : Otg) (dir : OtgDir) :
    s.Unmasked dir ↔ s.daintSts &&& s.daintMsk &&& dir.half ≠ 0 :=
  (masked_iff s.daintSts s.daintMsk dir).symm

/-! ### Updates -/

theorem Otg.ep_withEp_same (s : Otg) (dir : OtgDir) (n : Fin 16) (f : OtgEndPoint → OtgEndPoint) :
    (s.withEp dir n f).ep dir n = f (s.ep dir n) := by
  show Function.update s.ep dir (Function.update (s.ep dir) n (f (s.ep dir n))) dir n = _
  rw [Function.update_self, Function.update_self]

theorem Otg.ep_withEp_of_ne (s : Otg) {n' : Fin 16} (h : dir' ≠ dir ∨ n' ≠ n)
    (f : OtgEndPoint → OtgEndPoint) : (s.withEp dir n f).ep dir' n' = s.ep dir' n' := by
  show Function.update s.ep dir (Function.update (s.ep dir) n (f (s.ep dir n))) dir' n' = _
  by_cases hdir : dir' = dir
  · subst hdir
    rw [Function.update_self, Function.update_of_ne (h.resolve_left fun hne => hne rfl)]
  · rw [Function.update_of_ne hdir]

variable {s : Otg}

theorem otgUpdateIrq_right (h : s.Counted) : (otgUpdateIrq s).Right :=
  ⟨⟨h.daint, h.epint⟩, bne_iff_ne⟩

theorem Otg.Counted.but (h : s.Counted) (dir : OtgDir) (n : Fin 16) : s.RightBut dir n :=
  ⟨fun dir' n' _ => h.daint dir' n', fun dir' _ => h.epint dir'⟩

theorem Otg.RightBut.withEp (h : s.RightBut dir n) (f : OtgEndPoint → OtgEndPoint) :
    (s.withEp dir n f).RightBut dir n := by
  refine ⟨fun dir' n' hne => ?_, h.epint⟩
  rw [s.ep_withEp_of_ne hne]
  exact h.daint dir' n' hne

theorem Otg.Right.withEp (h : s.Right) (dir : OtgDir) (n : Fin 16) {f : OtgEndPoint → OtgEndPoint}
    (hf : ∀ e, (f e).interrupt = e.interrupt) : (s.withEp dir n f).Right := by
  refine ⟨⟨fun dir' n' => ?_, h.epint⟩, h.line⟩
  by_cases hsame : dir' = dir ∧ n' = n
  · obtain ⟨rfl, rfl⟩ := hsame
    rw [s.ep_withEp_same, hf]
    exact h.daint dir' n'
  · rw [s.ep_withEp_of_ne (Decidable.not_and_iff_or_not.mp hsame)]
    exact h.daint dir' n'

/-- **The update of an endpoint** puts its bit, its direction and the line right. -/
theorem otgEpUpdateIrq_right (h : s.RightBut dir n) : (otgEpUpdateIrq s dir n).Right := by
  have hepint_lt : dir.epint < 32 := by cases dir <;> decide
  apply otgUpdateIrq_right
  constructor
  · intro dir' n'
    show (otgPutBit s.daintSts (dir.daint n) _).getLsbD (dir'.daint n') = true ↔ _
    rw [getLsbD_otgPutBit (dir.daint_lt n)]
    by_cases hsame : dir'.daint n' = dir.daint n
    · obtain ⟨rfl, rfl⟩ := OtgDir.daint_inj hsame
      rw [if_pos rfl]
      exact bne_iff_ne
    · rw [if_neg hsame]
      refine h.daint dir' n' ?_
      by_contra hne
      obtain ⟨rfl, rfl⟩ := not_or.mp hne |>.imp not_not.mp not_not.mp
      exact hsame rfl
  · intro dir'
    show (otgPutBit s.gintSts dir.epint _).getLsbD dir'.epint = true ↔ _
    rw [getLsbD_otgPutBit hepint_lt]
    by_cases hsame : dir' = dir
    · subst hsame
      rw [if_pos rfl, Otg.unmasked_iff]
      exact bne_iff_ne
    -- no bit of the other direction has changed
    · rw [if_neg (OtgDir.epint_ne hsame), h.epint dir' hsame]
      refine exists_congr fun n' => and_congr_left' ?_
      show _ ↔ (otgPutBit s.daintSts (dir.daint n) _).getLsbD (dir'.daint n') = true
      rw [getLsbD_otgPutBit (dir.daint_lt n), if_neg fun heq => hsame (OtgDir.daint_inj heq).1]

/-- The configuration leaves everything as it is, or updates an endpoint. -/
theorem otgAct_keeps {P : Otg → Prop} (hP : ∀ s : Otg, s.Right → P s) (h : s.Counted) (hs : P s) :
    P (otgAct s) := by
  have hsetup : ∀ next packet, P (otgSetup s next packet) := by
    intro next packet
    unfold otgSetup
    dsimp only
    split_ifs
    · apply hP
      apply otgEpUpdateIrq_right
      apply Otg.RightBut.withEp
      exact ⟨(h.but .dirOut 0).daint, (h.but .dirOut 0).epint⟩
    · exact hs
  unfold otgAct
  split
  · exact hsetup _ _
  · exact hsetup _ _
  · exact hs

theorem otgDataRx_right (h : s.Right) (dir : OtgDir) (n : Fin 16) : (otgDataRx s dir n).Right := by
  unfold otgDataRx
  dsimp only
  split_ifs
  · exact ⟨⟨h.daint, h.epint⟩, h.line⟩
  · apply otgEpUpdateIrq_right
    apply Otg.RightBut.withEp
    exact ⟨(h.but dir n).daint, (h.but dir n).epint⟩

variable {s' : Otg}

theorem otgReceive_right (h : s.Right) {packet : List Byte}
    (hreceive : otgReceive s packet = some s') : s'.Right := by
  unfold otgReceive at hreceive
  split_ifs at hreceive
  have h' : ({ s with
      bufFull := true
      buf := packet } : Otg).Right := ⟨⟨h.daint, h.epint⟩, h.line⟩
  dsimp only at hreceive
  split at hreceive
  · obtain rfl := Option.some.inj hreceive
    exact otgDataRx_right h' _ _
  · obtain rfl := Option.some.inj hreceive
    exact h'

variable {arrivals : List (List Byte)}

theorem otgDataTx_right (h : s.Right) (hsend : otgDataTx s dir n arrivals = some s') :
    s'.Right := by
  unfold otgDataTx at hsend
  dsimp only at hsend
  split_ifs at hsend
  obtain ⟨s₁, harrive, rfl⟩ := Option.map_eq_some_iff.mp hsend
  have h₁ : s₁.Right := by
    refine runFrom_keeps (fun _ _ _ h₁ => otgReceive_right h₁) ?_ harrive
    exact ⟨⟨h.daint, h.epint⟩, h.line⟩
  exact otgEpUpdateIrq_right ((h₁.but dir n).withEp _)

/-! ### Registers of an endpoint -/

theorem otgEpDisable_right (h : s.Right) (dir : OtgDir) (n : Fin 16) (val : BitVec 32) :
    (otgEpDisable s dir n val).Right := by
  unfold otgEpDisable
  dsimp only
  split_ifs
  · exact otgEpUpdateIrq_right ((h.but dir n).withEp _)
  · exact h

theorem otgEpControl_right (h : s.Right) : (otgEpControl s).Right := by
  apply otgEpUpdateIrq_right
  have hbut := (h.but .dirIn 0).withEp fun e => { e with
    interrupt := e.interrupt ||| (EP_INT_XFERCOMPL ||| EP_INT_TXFEMP) }
  exact ⟨hbut.daint, hbut.epint⟩

/-- An endpoint that is enabled takes what is kept. -/
theorem otgEpEnable_right (h : s.Right) {r : Otg × Bool}
    (henable : otgEpEnable s dir n arrivals = some r) : r.1.Right := by
  have hact : (otgAct s).Right := otgAct_keeps (fun _ hs => hs) h.toCounted h
  cases dir with
  | dirIn =>
    unfold otgEpEnable at henable
    dsimp only at henable
    split_ifs at henable
    · obtain rfl := Option.some.inj henable
      exact otgEpControl_right hact
    · obtain ⟨s₁, hsend, rfl⟩ := Option.map_eq_some_iff.mp henable
      exact otgDataTx_right hact hsend
  | dirOut =>
    unfold otgEpEnable at henable
    dsimp only at henable
    split_ifs at henable
    · obtain rfl := Option.some.inj henable
      exact otgDataRx_right hact .dirOut n
    · obtain rfl := Option.some.inj henable
      exact hact

variable {val : BitVec 32}

theorem otgEpWriteCtrl_right (h : s.Right)
    (hwrite : otgEpWriteCtrl s dir n val arrivals = some s') : s'.Right := by
  have hdisable := otgEpDisable_right h dir n val
  obtain ⟨r, henable, rfl⟩ := Option.map_eq_some_iff.mp hwrite
  have hr : r.1.Right := by
    split_ifs at henable
    · exact otgEpEnable_right hdisable henable
    · obtain rfl := Option.some.inj henable
      exact hdisable
  exact hr.withEp dir n fun _ => rfl

theorem otgEpWrite_right (h : s.Right) {addr : Nat}
    (hwrite : otgEpWrite s dir n addr val arrivals = some s') : s'.Right := by
  unfold otgEpWrite at hwrite
  split at hwrite
  · exact otgEpWriteCtrl_right h hwrite
  · obtain rfl := Option.some.inj hwrite
    exact otgEpUpdateIrq_right ((h.but dir n).withEp _)
  · obtain rfl := Option.some.inj hwrite
    exact h.withEp dir n fun _ => rfl
  · obtain rfl := Option.some.inj hwrite
    exact h.withEp dir n fun _ => rfl
  · cases hwrite

/-! ### Registers of the controller -/

theorem Otg.Counted.gint (h : s.Counted) (hsts : s'.daintSts = s.daintSts)
    (hmsk : s'.daintMsk = s.daintMsk) (hep : s'.ep = s.ep)
    (hgint : ∀ dir : OtgDir, s'.gintSts.getLsbD dir.epint = s.gintSts.getLsbD dir.epint) :
    s'.Counted := by
  constructor
  · rw [hsts, hep]
    exact h.daint
  · intro dir
    rw [hgint, h.epint, Otg.unmasked_iff, Otg.unmasked_iff, hsts, hmsk]

theorem getLsbD_or_usbrst (x : BitVec 32) (dir : OtgDir) :
    (x ||| USB_INT_USBRST).getLsbD dir.epint = x.getLsbD dir.epint := by
  have hbit : USB_INT_USBRST.getLsbD dir.epint = false := by cases dir <;> decide
  rw [BitVec.getLsbD_or, hbit, Bool.or_false]

theorem getLsbD_or_enumdone (x : BitVec 32) (dir : OtgDir) :
    (x ||| USB_INT_ENUMDONE).getLsbD dir.epint = x.getLsbD dir.epint := by
  have hbit : USB_INT_ENUMDONE.getLsbD dir.epint = false := by cases dir <;> decide
  rw [BitVec.getLsbD_or, hbit, Bool.or_false]

/-- A reset forgets the interrupts of the endpoints. -/
theorem otgReset_counted_iff (h : s.Counted) : (otgReset s).Counted ↔ ∀ dir, ¬s.Unmasked dir := by
  have hgint : ∀ dir : OtgDir, (otgReset s).gintSts.getLsbD dir.epint = false := by
    intro dir
    show ((0x04000020 : BitVec 32) ||| USB_INT_USBRST).getLsbD dir.epint = false
    cases dir <;> decide
  constructor
  · intro hreset dir hdir
    have hset := (hreset.epint dir).mpr hdir
    rw [hgint dir] at hset
    cases hset
  · intro hno
    refine ⟨h.daint, fun dir => ?_⟩
    rw [hgint dir]
    exact ⟨fun hf => absurd hf Bool.false_ne_true, fun hdir => absurd hdir (hno dir)⟩

theorem Otg.quiet_iff (s : Otg) :
    s.daintSts &&& s.daintMsk = 0 ↔ ∀ dir, ¬s.Unmasked dir := by
  rw [← not_iff_not, ← ne_eq, ne_zero_iff_exists]
  simp only [BitVec.getLsbD_and, Bool.and_eq_true, not_forall, not_not]
  constructor
  · rintro ⟨i, hsts, hmsk⟩
    obtain ⟨dir, n, rfl⟩ := exists_daint (BitVec.lt_of_getLsbD hsts)
    exact ⟨dir, n, hsts, hmsk⟩
  · rintro ⟨dir, n, hsts, hmsk⟩
    exact ⟨dir.daint n, hsts, hmsk⟩

theorem otgPhyReset_right_iff (h : s.Counted) :
    (otgUpdateIrq { otgReset s with
      gintSts := (otgReset s).gintSts ||| USB_INT_USBRST }).Right ↔
        s.daintSts &&& s.daintMsk = 0 := by
  rw [s.quiet_iff, ← otgReset_counted_iff h]
  constructor
  · intro hright
    exact hright.toCounted.gint rfl rfl rfl fun dir => (getLsbD_or_usbrst _ dir).symm
  · intro hcounted
    exact otgUpdateIrq_right (hcounted.gint rfl rfl rfl (getLsbD_or_usbrst _))

/-- A reset of the core, with no interrupt of an endpoint pending. -/
theorem otgWriteGrstCtl_right (h : s.Right) (hval : val &&& 1 ≠ 0 → s.daintSts &&& s.daintMsk = 0) :
    (otgWriteGrstCtl s val).Right := by
  have hbus : ∀ s : Otg, s.Counted → (otgUpdateIrq { s with
      gintSts := s.gintSts ||| USB_INT_USBRST
      state := .reset }).Right := fun s hs =>
    otgUpdateIrq_right (hs.gint rfl rfl rfl (getLsbD_or_usbrst _))
  have hlast : ∀ s : Otg, s.Counted → (otgUpdateIrq { s with
      grstCtl := val &&& ~~~0x3f }).Right := fun s hs => otgUpdateIrq_right ⟨hs.daint, hs.epint⟩
  unfold otgWriteGrstCtl
  dsimp only
  apply hlast
  split_ifs with hreset hother
  · have hquiet := s.quiet_iff.mp (hval (bne_iff_ne.mp hreset))
    exact (hbus _ ((otgReset_counted_iff h.toCounted).mpr hquiet)).toCounted
  · exact (hbus s h.toCounted).toCounted
  · exact h.toCounted

theorem getLsbD_clear_fixed (x val : BitVec 32) (dir : OtgDir) :
    (x &&& ~~~(val &&& ~~~otgGintFixed)).getLsbD dir.epint = x.getLsbD dir.epint := by
  have hfixed : otgGintFixed.getLsbD dir.epint = true := by cases dir <;> decide
  have hlt : dir.epint < 32 := by cases dir <;> decide
  rw [BitVec.getLsbD_and, BitVec.getLsbD_not, BitVec.getLsbD_and, BitVec.getLsbD_not, hfixed]
  simp [hlt]

/-- A write to the interrupt status. -/
theorem otgWriteGintSts_right (h : s.Right) (val : BitVec 32) : (otgWriteGintSts s val).Right := by
  have hact : ∀ s : Otg, s.Counted → (otgAct s).Counted := fun s hs =>
    otgAct_keeps (fun _ hs' => hs'.toCounted) hs hs
  have hreset : ∀ s : Otg, s.Counted → (otgAckReset s).Counted := fun s hs =>
    hact _ (hs.gint rfl rfl rfl (getLsbD_or_enumdone _))
  have hdone : ∀ s : Otg, s.Counted → (otgAckEnumDone s).Counted := fun s hs =>
    hact _ ⟨hs.daint, hs.epint⟩
  have hclear : ({ s with
      gintSts := s.gintSts &&& ~~~(val &&& ~~~otgGintFixed) } : Otg).Counted :=
    h.toCounted.gint rfl rfl rfl (getLsbD_clear_fixed _ val)
  apply otgUpdateIrq_right
  split_ifs
  · exact hdone _ (hreset _ hclear)
  · exact hdone _ hclear
  · exact hreset _ hclear
  · exact hclear

/-- The test for an interrupt of an OUT endpoint where the mask is written. -/
theorem upper_ne_zero_iff (x msk : BitVec 32) :
    (x &&& msk) >>> 16 ≠ 0 ↔ x &&& msk &&& OtgDir.dirOut.half ≠ 0 := by
  rw [masked_iff, ne_zero_iff_exists]
  simp only [BitVec.getLsbD_ushiftRight, BitVec.getLsbD_and, Bool.and_eq_true]
  constructor
  · rintro ⟨i, hx, hmsk⟩
    have hlt : 16 + i < 32 := BitVec.lt_of_getLsbD hx
    have hi : OtgDir.dirOut.daint ⟨i, by omega⟩ = 16 + i := Nat.add_comm i 16
    exact ⟨⟨i, by omega⟩, hi ▸ hx, hi ▸ hmsk⟩
  · rintro ⟨n, hx, hmsk⟩
    have hn : OtgDir.dirOut.daint n = 16 + n := Nat.add_comm n 16
    rw [hn] at hx hmsk
    exact ⟨n, hx, hmsk⟩

/-- A write to the mask of the endpoints. -/
theorem otgWriteDaintMsk_right (h : s.Right) (val : BitVec 32) :
    (otgWriteDaintMsk s val).Right := by
  apply otgUpdateIrq_right
  refine ⟨h.daint, fun dir => ?_⟩
  rw [Otg.unmasked_iff]
  show (otgPutBit (otgPutBit s.gintSts 18 (s.daintSts &&& 0xffff &&& val != 0)) 19
    ((s.daintSts &&& val) >>> 16 != 0)).getLsbD dir.epint = true ↔
      s.daintSts &&& val &&& dir.half ≠ 0
  rw [getLsbD_otgPutBit (by decide), getLsbD_otgPutBit (by decide)]
  cases dir with
  | dirIn =>
    rw [if_neg (by decide), if_pos (by decide), bne_iff_ne, BitVec.and_assoc,
      BitVec.and_comm 0xffff val, ← BitVec.and_assoc]
    rfl
  | dirOut =>
    rw [if_pos (by decide), bne_iff_ne]
    exact upper_ne_zero_iff s.daintSts val

theorem otgEpUpdateAll_right (h : s.Right) (dir : OtgDir) : (otgEpUpdateAll s dir).Right := by
  unfold otgEpUpdateAll
  generalize List.finRange 16 = l
  induction l generalizing s with
  | nil => exact h
  | cons n l ih => exact ih (otgEpUpdateIrq_right (h.but dir n))

/-! ### Runs -/

/-- The operation leaves the levels of interrupts in agreement: a write of the mask does not change
    whether an interrupt is raised, and a reset comes when no endpoint interrupts that is not
    masked. -/
def OtgOp.Settles (s : Otg) : OtgOp → Prop
  | .write addr val _ =>
    (addr = 0x18 → (s.gintSts &&& val ≠ 0 ↔ s.gintSts &&& s.gintMsk ≠ 0)) ∧
    (addr = 0x10 ∧ val &&& 1 ≠ 0 ∨ addr = 0x100008 ∧ val &&& 0x1f ≠ 0 →
      s.daintSts &&& s.daintMsk = 0)
  | .receive _ => True

instance (s : Otg) : ∀ op : OtgOp, Decidable (op.Settles s)
  | .write _ _ _ => inferInstanceAs (Decidable (_ ∧ _))
  | .receive _ => instDecidableTrue

/-- A write to the PHY, which may reset the core. -/
theorem otgPhyWrite_right (h : s.Right) {offset : Nat}
    (hquiet : offset = 0x08 → val &&& 0x1f ≠ 0 → s.daintSts &&& s.daintMsk = 0)
    (hwrite : otgPhyWrite s offset val = some s') : s'.Right := by
  unfold otgPhyWrite at hwrite
  split at hwrite
  case h_3 =>
    dsimp only at hwrite
    split_ifs at hwrite with hreset
    · obtain rfl := Option.some.inj hwrite
      exact (otgPhyReset_right_iff h.toCounted).mpr (hquiet rfl (bne_iff_ne.mp hreset))
    · obtain rfl := Option.some.inj hwrite
      exact h
  case h_6 => cases hwrite
  all_goals
    obtain rfl := Option.some.inj hwrite
    exact ⟨⟨h.daint, h.epint⟩, h.line⟩

/-- Any write that settles. -/
theorem otgWrite_right (h : s.Right) {addr : Nat}
    (hop : (OtgOp.write addr val arrivals).Settles s)
    (hwrite : otgWrite s addr val arrivals = some s') : s'.Right := by
  obtain ⟨hmsk, hreset⟩ := hop
  have hsame : ∀ s' : Otg, s'.daintSts = s.daintSts → s'.daintMsk = s.daintMsk → s'.ep = s.ep →
      s'.gintSts = s.gintSts → s'.gintMsk = s.gintMsk → s'.irq = s.irq → s'.Right := by
    intro s' hsts hdmsk hep hgint hgmsk hirq
    refine ⟨h.toCounted.gint hsts hdmsk hep fun dir => by rw [hgint], ?_⟩
    rw [hirq, hgint, hgmsk]
    exact h.line
  unfold otgWrite at hwrite
  -- by the ranges of addresses, then by the register
  by_cases hphy : 0x100000 ≤ addr ∧ addr < 0x100028
  · rw [if_pos hphy] at hwrite
    refine otgPhyWrite_right h (fun hoffset hval => hreset (.inr ⟨?_, hval⟩)) hwrite
    omega
  rw [if_neg hphy] at hwrite
  by_cases hin : 0x900 ≤ addr ∧ addr ≤ 0xAFC
  · rw [dif_pos hin] at hwrite
    exact otgEpWrite_right h hwrite
  rw [dif_neg hin] at hwrite
  by_cases hout : 0xB00 ≤ addr ∧ addr ≤ 0xCFC
  · rw [dif_pos hout] at hwrite
    exact otgEpWrite_right h hwrite
  rw [dif_neg hout] at hwrite
  by_cases hfifo : 0x100 ≤ addr ∧ addr ≤ 0x13C
  · rw [dif_pos hfifo] at hwrite
    obtain rfl := Option.some.inj hwrite
    exact h.withEp .dirIn _ fun _ => rfl
  rw [dif_neg hfifo] at hwrite
  split at hwrite
  all_goals obtain rfl := Option.some.inj hwrite
  case h_2 => exact otgUpdateIrq_right ⟨h.daint, h.epint⟩
  case h_5 => exact otgWriteGrstCtl_right h fun hval => hreset (.inl ⟨rfl, hval⟩)
  case h_6 => exact otgWriteGintSts_right h val
  case h_7 => exact ⟨⟨h.daint, h.epint⟩, h.line.trans (hmsk rfl).symm⟩
  case h_11 =>
    apply otgEpUpdateAll_right
    exact hsame _ rfl rfl rfl rfl rfl rfl
  case h_12 =>
    apply otgEpUpdateAll_right
    exact hsame _ rfl rfl rfl rfl rfl rfl
  case h_13 => exact otgWriteDaintMsk_right h val
  all_goals exact hsame _ rfl rfl rfl rfl rfl rfl

theorem OtgOp.exec_right (h : s.Right) {op : OtgOp} (hop : op.Settles s)
    (hexec : op.exec s = some s') : s'.Right := by
  cases op with
  | write addr val arrivals => exact otgWrite_right h hop hexec
  | receive packet => exact otgReceive_right h hexec

/-- At the start no interrupt is raised. -/
theorem otgInit_right (mem : Nat → Byte) : (otgInit mem).Right := by
  refine ⟨⟨fun dir n => ?_, fun dir => ?_⟩, ?_⟩
  · show (0 : BitVec 32).getLsbD _ = true ↔ (0 : BitVec 32) ≠ 0
    simp
  · have hquiet : (otgInit mem).daintSts &&& (otgInit mem).daintMsk = 0 := BitVec.and_self
    refine iff_of_false ?_ ((otgInit mem).quiet_iff.mp hquiet dir)
    show ¬(0x04000020 : BitVec 32).getLsbD dir.epint = true
    cases dir <;> decide
  · show false = true ↔ (0x04000020 : BitVec 32) &&& 0 ≠ 0
    decide

/-- **The interrupts.**  In a run of operations that leave the levels in agreement, the bits of
    `daint_sts` are those of the endpoints that interrupt, those of `gint_sts` those of the
    directions with such an endpoint that is not masked, and the line is high exactly if one of
    `gint_sts` is not masked. -/
theorem otg_interrupts (mem : Nat → Byte) (ops : List OtgOp) (s : Otg)
    (hops : StepsMeet OtgOp.exec OtgOp.Settles (otgInit mem) ops)
    (hrun : runFrom OtgOp.exec (otgInit mem) ops = some s) : s.Right :=
  runFrom_preserves (fun _ _ _ h hop hexec => OtgOp.exec_right h hop hexec) (otgInit_right mem)
    hops hrun

/-- The first IN endpoint is unmasked, and interrupts. -/
def otgFirstIn : List OtgOp :=
  [.write 0x81C 1 [], .write 0x18 0x40000 [], .write 0x900 0x80000000 []]

/-- The guest clears the interrupt, and then resets the PHY. -/
theorem otg_interrupts_cleared :
    ((runFrom OtgOp.exec (otgInit fun _ => 0)
      (otgFirstIn ++ [.write 0x908 0x81 [], .write 0x100008 1 []])).get (by decide)).Right :=
  otg_interrupts _ _ _ (by decide) (Option.some_get _).symm

/-- A reset of the PHY while the endpoint interrupts clears its bit of `gint_sts`, and a mask that
    is written leaves the line as it was. -/
theorem otg_interrupts_lost :
    (∃ s, runFrom OtgOp.exec (otgInit fun _ => 0) (otgFirstIn ++ [.write 0x100008 1 []]) = some s ∧
      ¬s.Right) ∧
    ∃ s, runFrom OtgOp.exec (otgInit fun _ => 0) (otgFirstIn ++ [.write 0x18 0 []]) = some s ∧
      ¬s.Right := by
  refine ⟨⟨_, rfl, fun h => ?_⟩, ⟨_, rfl, fun h => ?_⟩⟩
  · have hset := (h.epint .dirIn).mpr ⟨0, by decide, by decide⟩
    exact absurd hset (by decide)
  · exact absurd (h.line.mp (by decide)) (by decide)

end Qemu.Hw
