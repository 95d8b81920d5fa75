import Qemu.Hw.Sd

namespace Qemu.Hw

open Lib

/-!
# Accesses of the SD card to its arrays

* `SDState.Inv` — lengths that commands have checked, and the offset of a transfer that goes on.
* `SdAction.InBounds` — the accesses that are not guarded: the tables of commands, the status and
  configuration registers that a command in the middle of a transfer switches to, and the write
  protection map for addresses of the guest.
* `sd_inBounds` — these are all that can go out of bounds.
-/

/-- The lengths stay in their buffers. -/
structure SDState.Inv (sd : SDState) : Prop where
  blkLen : sd.blkLen ≤ 512
  pwdLen : sd.pwdLen ≤ 16
  offset : sd.state = .sendingdata ∨ sd.state = .receivingdata → sd.dataOffset < 512

/-- A function returns, and leaves a card with the invariant. -/
def Keeps (o : Option SDState) : Prop := ∃ sd, o = some sd ∧ sd.Inv

/-- The same of a function with another value. -/
def Good {α : Type} (o : Option (SDState × α)) : Prop := ∃ r, o = some r ∧ r.1.Inv

section

variable {sd : SDState}

/-! ### The common parts of commands -/

theorem Good.some {α : Type} {r : SDState × α} (h : r.1.Inv) : Good (some r) := ⟨r, rfl, h⟩

theorem Keeps.map {α : Type} {o : Option SDState} (h : Keeps o) {f : SDState → SDState × α}
    (hf : ∀ sd : SDState, sd.Inv → (f sd).1.Inv) : Good (o.map f) := by
  obtain ⟨sd, rfl, hsd⟩ := h
  exact ⟨f sd, rfl, hf sd hsd⟩

theorem SDState.Inv.raise (h : sd.Inv) (bits : BitVec 32) : (sd.raise bits).Inv :=
  ⟨h.blkLen, h.pwdLen, h.offset⟩

theorem SDState.Inv.move (h : sd.Inv) {state : SdCardState} (hsending : state ≠ .sendingdata)
    (hreceiving : state ≠ .receivingdata) : ({ sd with state := state } : SDState).Inv :=
  ⟨h.blkLen, h.pwdLen, fun hstate => absurd hstate (not_or.mpr ⟨hsending, hreceiving⟩)⟩

theorem SDState.Inv.startData (h : sd.Inv) (state : SdCardState) (dataStart : Nat) :
    (sd.startData state dataStart).Inv :=
  ⟨h.blkLen, h.pwdLen, fun _ => Nat.zero_lt_succ 511⟩

theorem SDState.Inv.checkAddress (h : sd.Inv) : sd.checkAddress.Inv := by
  unfold SDState.checkAddress
  split_ifs
  · exact h.raise ADDRESS_ERROR
  · exact h

theorem sdReset_inv (sd : SDState) (bdrv : Option SdBdrv) : (sdReset sd bdrv).Inv :=
  ⟨Nat.le_refl 512, Nat.zero_le 16, fun h => by cases h <;> contradiction⟩

theorem sdInit_inv (bdrv : Option SdBdrv) (spi : Bool) : (sdInit bdrv spi).Inv := sdReset_inv _ bdrv

theorem sdIllegal_good (h : sd.Inv) : Good (sdIllegal sd) := Good.some (h.raise ILLEGAL_COMMAND)

theorem inState_good (h : sd.Inv) {state : SdCardState} {next : Option SdResult}
    (hnext : sd.state = state → Good next) : Good (sd.inState state next) := by
  unfold SDState.inState
  split_ifs with hstate
  · exact hnext hstate
  · exact sdIllegal_good h

theorem notSpi_good (h : sd.Inv) {next : Option SdResult} (hnext : sd.spi = false → Good next) :
    Good (sd.notSpi next) := by
  unfold SDState.notSpi
  split_ifs with hspi
  · exact sdIllegal_good h
  · exact hnext (Bool.eq_false_iff.mpr hspi)

theorem sdReadBlock_good (h : sd.Inv) (addr : Nat) : Good (sdReadBlock sd addr) :=
  inState_good h fun _ => Good.some (h.startData .sendingdata addr).checkAddress

theorem sdReceiveFrom_good (h : sd.Inv) : Good (sdReceiveFrom sd) :=
  notSpi_good h fun _ => inState_good h fun _ => Good.some (h.startData .receivingdata 0)

theorem sdSendRegister_good (h : sd.Inv) (rca : BitVec 32) (addr : Nat) (register : CArray Byte 16)
    (rsp : SdRspType) : Good (sdSendRegister sd rca addr register rsp) := by
  unfold sdSendRegister
  split
  · exact Good.some h
  · split_ifs
    · have hstart := h.startData .sendingdata addr
      exact Good.some ⟨hstart.blkLen, hstart.pwdLen, hstart.offset⟩
    · exact sdIllegal_good h
  · exact sdIllegal_good h

/-- The card is selected. -/
theorem sdSelectCard_good (h : sd.Inv) (rca : BitVec 32) : Good (sdSelectCard sd rca) := by
  have hmove : ∀ state : SdCardState, state ≠ .sendingdata → state ≠ .receivingdata →
      Good (some (({ sd with state := state } : SDState), SdRspType.r1b)) :=
    fun state hsending hreceiving => Good.some (h.move hsending hreceiving)
  unfold sdSelectCard
  split
  · split_ifs
    · exact Good.some h
    · exact hmove .transfer SdCardState.noConfusion SdCardState.noConfusion
  · split_ifs
    · exact sdIllegal_good h
    · exact hmove .standby SdCardState.noConfusion SdCardState.noConfusion
  · split_ifs
    · exact sdIllegal_good h
    · exact hmove .standby SdCardState.noConfusion SdCardState.noConfusion
  · split_ifs
    · exact Good.some h
    · exact hmove .programming SdCardState.noConfusion SdCardState.noConfusion
  · split_ifs
    · exact sdIllegal_good h
    · exact hmove .disconnect SdCardState.noConfusion SdCardState.noConfusion
  · exact sdIllegal_good h

theorem sdStopTransmission_good (h : sd.Inv) : Good (sdStopTransmission sd) := by
  unfold sdStopTransmission
  split
  · exact Good.some (h.move SdCardState.noConfusion SdCardState.noConfusion)
  · exact Good.some (h.move SdCardState.noConfusion SdCardState.noConfusion)
  · exact sdIllegal_good h

theorem sdFunctionSwitch_keeps (h : sd.Inv) (arg : BitVec 32) :
    Keeps (sdFunctionSwitch sd arg) := by
  unfold sdFunctionSwitch
  dsimp only
  rw [Option.map_eq_bind]
  exact CArray.bind_slice (by decide) fun message _ => ⟨_, rfl, h.blkLen, h.pwdLen, h.offset⟩

theorem sdSendIfCond_good (h : sd.Inv) (arg : BitVec 32) : Good (sdSendIfCond sd arg) := by
  refine inState_good h fun _ => ?_
  split_ifs
  · exact Good.some ⟨h.blkLen, h.pwdLen, h.offset⟩
  · exact Good.some ⟨h.blkLen, h.pwdLen, h.offset⟩
  · exact Good.some ⟨h.blkLen, h.pwdLen, h.offset⟩

/-! ### The write protection map -/

theorem wpGroup_eq (addr : Nat) : wpGroup addr = addr / 2097152 := Nat.shiftRight_eq_div_pow addr 21

theorem wpGroup_lt {addr : Nat} (h : addr < sd.size) : wpGroup addr < wpGroupCount sd.size := by
  unfold wpGroupCount
  rw [wpGroup_eq, wpGroup_eq]
  omega

theorem sdSetWriteProt_good (h : sd.Inv) (addr : Nat) (wp : Bool) :
    Good (sdSetWriteProt sd addr wp) := by
  refine inState_good h fun _ => ?_
  split_ifs with haddr
  · exact Good.some ⟨h.blkLen, h.pwdLen, h.offset⟩
  · rw [Option.map_eq_bind]
    exact CArray.bind_store (wpGroup_lt (Nat.lt_of_not_le haddr))
      fun _ => Good.some ⟨h.blkLen, h.pwdLen, h.offset⟩

/-- The groups of the map that are looked at are in front of the end of the card. -/
theorem sdWpbits_some (sd : SDState) (addr : Nat) : ∃ bits, sdWpbits sd addr = some bits := by
  unfold sdWpbits
  generalize List.range 32 = l
  generalize (0 : BitVec 32) = ret
  induction l generalizing ret with
  | nil => exact ⟨ret, rfl⟩
  | cons i l ih =>
    rw [List.foldlM_cons]
    split_ifs with haddr
    · have hgroup : wpGroup addr + i < wpGroupCount sd.size := by
        unfold wpGroupCount
        rw [wpGroup_eq, wpGroup_eq]
        omega
      rw [CArray.load_of_lt hgroup]
      exact ih _
    · exact ih ret

/-- The erased groups are in the map. -/
def EraseFits (sd : SDState) : Prop :=
  sd.eraseStart ≠ 0 → sd.eraseEnd ≠ 0 →
    wpGroup sd.eraseStart.toNat ≤ wpGroup sd.eraseEnd.toNat →
      wpGroup sd.eraseEnd.toNat < wpGroupCount sd.size

/-- The loop ends when the last group is one of the card's. -/
theorem eraseLoop_iff (sd : SDState) (first last : Nat) :
    (∃ status, eraseLoop sd (List.range' first (last + 1 - first)) = some status) ↔
      (first ≤ last → last < wpGroupCount sd.size) := by
  refine (CArray.foldlM_load (fun (status : BitVec 32) _ (wp : Bool) =>
    if wp then status ||| WP_ERASE_SKIP else status) _ _).trans ?_
  constructor
  · intro h hle
    exact h last (List.mem_range'_1.mpr ⟨hle, by omega⟩)
  · intro h i hi
    obtain ⟨hfirst, hlast⟩ := List.mem_range'_1.mp hi
    have hle : first ≤ last := by omega
    exact Nat.lt_of_le_of_lt (by omega) (h hle)

theorem sdErase_keeps (h : sd.Inv) (hfits : EraseFits sd) : Keeps (sdErase sd) := by
  unfold sdErase
  split_ifs with hzero
  · exact ⟨_, rfl, h.raise ERASE_SEQ_ERROR⟩
  · rw [not_or] at hzero
    obtain ⟨status, hstatus⟩ := (eraseLoop_iff sd _ _).mpr (hfits hzero.1 hzero.2)
    dsimp only
    rw [hstatus]
    exact ⟨_, rfl, h.blkLen, h.pwdLen, h.offset⟩

theorem sdErase_none (hfits : ¬EraseFits sd) : sdErase sd = none := by
  unfold EraseFits at hfits
  simp only [Classical.not_imp] at hfits
  obtain ⟨hstart, hend, hle, hlt⟩ := hfits
  unfold sdErase
  rw [if_neg (not_or.mpr ⟨hstart, hend⟩)]
  dsimp only
  cases hloop : eraseLoop sd (List.range' (wpGroup sd.eraseStart.toNat)
      (wpGroup sd.eraseEnd.toNat + 1 - wpGroup sd.eraseStart.toNat)) with
  | none => rfl
  | some status => exact absurd ((eraseLoop_iff sd _ _).mp ⟨status, hloop⟩ hle) hlt

/-- The group that a write begins in is in the map. -/
def WriteFits (sd : SDState) (addr : Nat) : Prop :=
  wpGroup (addr % 2 ^ 32) < wpGroupCount sd.size

theorem sdWpAddr_iff (sd : SDState) (addr : Nat) :
    (∃ wp, sdWpAddr sd addr = some wp) ↔ WriteFits sd addr := by
  unfold sdWpAddr WriteFits
  by_cases hlt : wpGroup (addr % 2 ^ 32) < wpGroupCount sd.size
  · rw [CArray.load_of_lt hlt]
    exact ⟨fun _ => hlt, fun _ => ⟨_, rfl⟩⟩
  · rw [CArray.load_eq_none (Nat.le_of_not_lt hlt)]
    exact ⟨fun ⟨_, h⟩ => absurd h.symm (Option.some_ne_none _), fun h => absurd h hlt⟩

theorem sdWpAddr_checkAddress (sd : SDState) (addr : Nat) :
    sdWpAddr sd.checkAddress addr = sdWpAddr sd addr := by
  unfold SDState.checkAddress
  split_ifs <;> rfl

theorem dataStart_checkAddress (sd : SDState) : sd.checkAddress.dataStart = sd.dataStart := by
  unfold SDState.checkAddress
  split_ifs <;> rfl

/-- A write looks at the group of its address whatever the address check has found. -/
theorem sdWriteBlock_eq (hspi : sd.spi = false) (hstate : sd.state = .transfer) (addr : Nat) :
    ∃ f : Bool → SdResult, sdWriteBlock sd addr = (sdWpAddr sd addr).map f ∧
      (sd.Inv → ∀ wp, (f wp).1.Inv) := by
  unfold sdWriteBlock SDState.notSpi SDState.inState
  rw [if_neg (Bool.eq_false_iff.mp hspi), if_pos hstate]
  dsimp only
  rw [sdWpAddr_checkAddress, dataStart_checkAddress]
  refine ⟨_, rfl, fun h wp => ?_⟩
  have hstart := h.startData .receivingdata addr
  have hcheck := @SDState.Inv.checkAddress { (sd.startData .receivingdata addr) with
    blkWritten := 0 } ⟨hstart.blkLen, hstart.pwdLen, hstart.offset⟩
  dsimp only
  split_ifs
  · exact (hcheck.raise _).raise _
  · exact hcheck.raise _
  · exact hcheck.raise _
  · exact hcheck

/-- A block write that fits returns. -/
theorem sdWriteBlock_good (h : sd.Inv) {addr : Nat}
    (hfits : sd.spi = false → sd.state = .transfer → WriteFits sd addr) :
    Good (sdWriteBlock sd addr) := by
  by_cases hspi : sd.spi = true
  · exact notSpi_good h fun hspi' => absurd (hspi.symm.trans hspi') Bool.noConfusion
  by_cases hstate : sd.state = .transfer
  · have hspi' := Bool.eq_false_iff.mpr hspi
    obtain ⟨f, heq, hf⟩ := sdWriteBlock_eq hspi' hstate addr
    obtain ⟨wp, hwp⟩ := (sdWpAddr_iff sd addr).mpr (hfits hspi' hstate)
    rw [heq, hwp]
    exact Good.some (hf h wp)
  · exact notSpi_good h fun _ => inState_good h fun hstate' => absurd hstate' hstate

theorem sdWriteBlock_none {addr : Nat} (hspi : sd.spi = false) (hstate : sd.state = .transfer)
    (hfits : ¬WriteFits sd addr) : sdWriteBlock sd addr = none := by
  obtain ⟨f, heq, -⟩ := sdWriteBlock_eq hspi hstate addr
  rw [heq]
  cases hwp : sdWpAddr sd addr with
  | none => rfl
  | some wp => exact absurd ((sdWpAddr_iff sd addr).mp ⟨wp, hwp⟩) hfits

/-! ### Commands -/

/-- The accesses of a command that it does not guard. -/
structure CommandFits (sd : SDState) (cmd : Nat) (arg : BitVec 32) : Prop where
  table : cmd < 64
  write : cmd = 24 ∨ cmd = 25 → sd.spi = false → sd.state = .transfer →
    WriteFits sd (sdAddr sd arg)
  erase : cmd = 38 → sd.state = .transfer → sd.csdHas 0x30 = false → EraseFits sd

/-- A command that fits returns. -/
theorem sdNormalCommand_good (h : sd.Inv) {cmd : Nat} {arg : BitVec 32}
    (hfits : CommandFits sd cmd arg) : Good (sdNormalCommand sd cmd arg) := by
  have htable : cmd < sdCmdType.length := hfits.table
  unfold sdNormalCommand
  rw [List.getElem?_eq_getElem htable, Option.bind_some]
  dsimp only
  generalize (if sdCmdType[cmd] = .ac ∨ sdCmdType[cmd] = .adtc then arg >>> 16
    else (0 : BitVec 32)) = rca
  -- one command after the other, in the order of the `switch`
  split
  · split
    · exact Good.some h
    · exact Good.some (sdReset_inv _ _)
  · split_ifs
    · exact Good.some (h.move SdCardState.noConfusion SdCardState.noConfusion)
    · exact sdIllegal_good h
  · exact notSpi_good h fun _ => inState_good h fun _ =>
      Good.some (h.move SdCardState.noConfusion SdCardState.noConfusion)
  · refine notSpi_good h fun _ => ?_
    split_ifs
    · have hmove : ({ sd with state := .standby } : SDState).Inv :=
        h.move SdCardState.noConfusion SdCardState.noConfusion
      exact Good.some ⟨hmove.blkLen, hmove.pwdLen, hmove.offset⟩
    · exact sdIllegal_good h
  · exact sdIllegal_good h
  · refine notSpi_good h fun _ => ?_
    split_ifs
    · exact (sdFunctionSwitch_keeps h arg).map fun sd hsd => hsd.startData .sendingdata 0
    · exact sdIllegal_good h
  · exact notSpi_good h fun _ => sdSelectCard_good h _
  · exact sdSendIfCond_good h arg
  · exact sdSendRegister_good h _ _ _ _
  · exact sdSendRegister_good h _ _ _ _
  · exact notSpi_good h fun _ => inState_good h fun _ =>
      Good.some (h.startData .sendingdata _).checkAddress
  · exact sdStopTransmission_good h
  · split_ifs
    · exact Good.some h
    · exact Good.some h
    · exact sdIllegal_good h
  · refine notSpi_good h fun _ => ?_
    split_ifs
    · exact Good.some h
    · exact Good.some (h.move SdCardState.noConfusion SdCardState.noConfusion)
    · exact sdIllegal_good h
  · refine inState_good h fun _ => ?_
    split_ifs with hlen
    · exact Good.some (h.raise BLOCK_LEN_ERROR)
    · exact Good.some ⟨Nat.le_of_not_lt hlen, h.pwdLen, h.offset⟩
  · exact sdReadBlock_good h _
  · exact sdReadBlock_good h _
  · exact sdWriteBlock_good h (hfits.write (Or.inl rfl))
  · exact sdWriteBlock_good h (hfits.write (Or.inr rfl))
  · exact sdReceiveFrom_good h
  · exact sdReceiveFrom_good h
  · exact sdSetWriteProt_good h _ true
  · exact sdSetWriteProt_good h _ false
  · refine inState_good h fun _ => ?_
    obtain ⟨bits, hbits⟩ := sdWpbits_some sd arg.toNat
    have hstart := h.startData .sendingdata (sdAddr sd arg)
    rw [hbits]
    exact Good.some ⟨hstart.blkLen, hstart.pwdLen, hstart.offset⟩
  · exact inState_good h fun _ => Good.some ⟨h.blkLen, h.pwdLen, h.offset⟩
  · exact inState_good h fun _ => Good.some ⟨h.blkLen, h.pwdLen, h.offset⟩
  · refine inState_good h fun hstate => ?_
    split_ifs with hcsd
    · exact Good.some (h.raise WP_VIOLATION)
    · have herase := hfits.erase rfl hstate (Bool.eq_false_iff.mpr hcsd)
      exact (sdErase_keeps h herase).map fun sd hsd =>
        hsd.move SdCardState.noConfusion SdCardState.noConfusion
  · exact sdReceiveFrom_good h
  · split_ifs
    · exact Good.some h
    · exact Good.some (h.raise APP_CMD)
  · exact inState_good h fun _ =>
      Good.some ⟨h.blkLen, h.pwdLen, fun _ => Nat.zero_lt_succ 511⟩
  · exact sdIllegal_good h

/-- The accesses that are not guarded do go out of bounds. -/
theorem sdNormalCommand_none {cmd : Nat} {arg : BitVec 32} (hfits : ¬CommandFits sd cmd arg) :
    sdNormalCommand sd cmd arg = none := by
  by_cases htable : cmd < 64
  · unfold sdNormalCommand
    rw [List.getElem?_eq_getElem (show cmd < sdCmdType.length from htable), Option.bind_some]
    dsimp only
    by_cases hwrite : cmd = 24 ∨ cmd = 25 → sd.spi = false → sd.state = .transfer →
        WriteFits sd (sdAddr sd arg)
    · have herase : ¬(cmd = 38 → sd.state = .transfer → sd.csdHas 0x30 = false → EraseFits sd) :=
        fun herase => hfits ⟨htable, hwrite, herase⟩
      simp only [Classical.not_imp] at herase
      obtain ⟨rfl, hstate, hcsd, herase⟩ := herase
      show sd.inState .transfer _ = none
      rw [SDState.inState, if_pos hstate, if_neg (Bool.eq_false_iff.mp hcsd), sdErase_none herase]
      rfl
    · simp only [Classical.not_imp] at hwrite
      obtain ⟨hcmd, hspi, hstate, hwrite⟩ := hwrite
      rcases hcmd with rfl | rfl
      · exact sdWriteBlock_none hspi hstate hwrite
      · exact sdWriteBlock_none hspi hstate hwrite
  · unfold sdNormalCommand
    rw [List.getElem?_eq_none (Nat.le_of_not_lt htable)]
    rfl

theorem CommandFits.status_iff {cmd : Nat} {arg : BitVec 32} (status : BitVec 32) :
    CommandFits { sd with cardStatus := status } cmd arg ↔ CommandFits sd cmd arg :=
  ⟨fun h => ⟨h.table, h.write, h.erase⟩, fun h => ⟨h.table, h.write, h.erase⟩⟩

theorem CommandFits.setStatus_iff {cmd : Nat} {arg : BitVec 32} :
    CommandFits (sdSetStatus sd) cmd arg ↔ CommandFits sd cmd arg :=
  ⟨fun h => ⟨h.table, h.write, h.erase⟩, fun h => ⟨h.table, h.write, h.erase⟩⟩

theorem sdAppInState_inv (h : sd.Inv) {state : SdCardState} {next : SdResult}
    (hnext : sd.state = state → next.1.Inv) : (sdAppInState sd state next).1.Inv := by
  unfold sdAppInState
  split_ifs with hstate
  · exact hnext hstate
  · exact h

/-- An application command that fits returns. -/
theorem sdAppCommand_good (h : sd.Inv) {cmd : Nat} {arg : BitVec 32}
    (hfits : CommandFits sd cmd arg) : Good (sdAppCommand sd cmd arg) := by
  have htable : cmd < sdCmdType.length := hfits.table
  unfold sdAppCommand
  rw [List.getElem?_eq_getElem htable, Option.bind_some]
  split
  · exact Good.some (sdAppInState_inv h fun _ => ⟨h.blkLen, h.pwdLen, h.offset⟩)
  · exact Good.some (sdAppInState_inv h fun _ =>
      ⟨h.blkLen, h.pwdLen, fun _ => Nat.zero_lt_succ 511⟩)
  · exact Good.some (sdAppInState_inv h fun _ =>
      ⟨h.blkLen, h.pwdLen, fun _ => Nat.zero_lt_succ 511⟩)
  · exact Good.some (sdAppInState_inv h fun _ => h)
  · split_ifs
    · exact Good.some (h.move SdCardState.noConfusion SdCardState.noConfusion)
    · exact Good.some (sdAppInState_inv h fun _ =>
        h.move SdCardState.noConfusion SdCardState.noConfusion)
    · exact Good.some (sdAppInState_inv h fun _ => h)
  · exact Good.some (sdAppInState_inv h fun _ => h)
  · exact Good.some (sdAppInState_inv h fun _ => h.startData .sendingdata 0)
  · have hstatus : ({ sd with cardStatus := sd.cardStatus &&& ~~~APP_CMD } : SDState).Inv :=
      ⟨h.blkLen, h.pwdLen, h.offset⟩
    exact sdNormalCommand_good hstatus ((CommandFits.status_iff _).mpr hfits)

/-- The application commands look at no address. -/
theorem sdAppCommand_none {cmd : Nat} {arg : BitVec 32} (hfits : ¬CommandFits sd cmd arg) :
    sdAppCommand sd cmd arg = none := by
  have hcases : ∀ n : Nat, n < 64 → n ≠ 24 → n ≠ 25 → n ≠ 38 → cmd ≠ n := by
    rintro n hn h24 h25 h38 rfl
    exact hfits ⟨hn, fun h => absurd h (not_or.mpr ⟨h24, h25⟩), fun h => absurd h h38⟩
  unfold sdAppCommand
  cases htype : sdCmdType[cmd]? with
  | none => rfl
  | some type =>
    rw [Option.bind_some]
    split
    · exact absurd rfl (hcases 6 (by decide) (by decide) (by decide) (by decide))
    · exact absurd rfl (hcases 13 (by decide) (by decide) (by decide) (by decide))
    · exact absurd rfl (hcases 22 (by decide) (by decide) (by decide) (by decide))
    · exact absurd rfl (hcases 23 (by decide) (by decide) (by decide) (by decide))
    · exact absurd rfl (hcases 41 (by decide) (by decide) (by decide) (by decide))
    · exact absurd rfl (hcases 42 (by decide) (by decide) (by decide) (by decide))
    · exact absurd rfl (hcases 51 (by decide) (by decide) (by decide) (by decide))
    · exact sdNormalCommand_none fun h =>
        hfits ((CommandFits.status_iff (sd.cardStatus &&& ~~~APP_CMD)).mp h)

theorem sdResponse_inv (h : sd.Inv) (lastStatus : BitVec 32) (rsp : SdRspType) :
    (sdResponse sd lastStatus rsp).1.Inv := by
  cases rsp with
  | r1 => exact ⟨h.blkLen, h.pwdLen, h.offset⟩
  | r1b => exact ⟨h.blkLen, h.pwdLen, h.offset⟩
  | r0 => exact h
  | r2i => exact h
  | r2s => exact h
  | r3 => exact h
  | r6 => exact h
  | r7 => exact h

theorem sdLockRefuses_some (lastStatus : BitVec 32) {cmd : Nat} (h : cmd < 64) :
    ∃ refuses, sdLockRefuses lastStatus cmd = some refuses := by
  unfold sdLockRefuses
  rw [List.getElem?_eq_getElem (show cmd < sdCmdClass.length from h)]
  split_ifs
  · exact ⟨_, rfl⟩
  · exact ⟨_, rfl⟩
  · exact ⟨_, rfl⟩

/-- A request that fits returns. -/
theorem sdDoCommand_good (h : sd.Inv) {cmd : Nat} {arg : BitVec 32}
    (hfits : sd.present = true → sdLockRefuses sd.cardStatus cmd ≠ some true →
      CommandFits sd cmd arg) : Good (sdDoCommand sd cmd arg) := by
  unfold sdDoCommand
  by_cases hpresent : sd.present = true
  · rw [hpresent, Bool.not_true, if_neg Bool.false_ne_true]
    dsimp only
    generalize hrefuses : sdLockRefuses sd.cardStatus cmd = refuses
    have hset : (sdSetStatus { sd with cardStatus := sd.cardStatus &&& ~~~CARD_STATUS_B }).Inv :=
      ⟨h.blkLen, h.pwdLen, h.offset⟩
    -- a locked card takes only some commands
    by_cases hr : refuses = some true
    · rw [hr, Option.bind_some, if_pos rfl]
      exact Good.some (hset.raise ILLEGAL_COMMAND)
    · have hcommand := hfits hpresent (hrefuses ▸ hr)
      obtain ⟨r, hr'⟩ := sdLockRefuses_some sd.cardStatus hcommand.table
      obtain rfl : refuses = some r := hrefuses.symm.trans hr'
      obtain rfl : r = false := Bool.eq_false_iff.mpr fun h => hr (congrArg some h)
      rw [Option.bind_some, if_neg Bool.false_ne_true]
      have hcommand' : CommandFits (sdSetStatus
          { sd with cardStatus := sd.cardStatus &&& ~~~CARD_STATUS_B }) cmd arg :=
        CommandFits.setStatus_iff.mpr ((CommandFits.status_iff _).mpr hcommand)
      have hafter : ∀ o : Option SdResult, Good o → Good (o.map fun r =>
          ((sdResponse { r.1 with currentCmd := cmd } sd.cardStatus r.2).1,
            if (sdResponse { r.1 with currentCmd := cmd } sd.cardStatus r.2).1.has ILLEGAL_COMMAND
            then [] else (sdResponse { r.1 with currentCmd := cmd } sd.cardStatus r.2).2)) := by
        rintro _ ⟨r, rfl, hr⟩
        have hcmd : ({ r.1 with currentCmd := cmd } : SDState).Inv :=
          ⟨hr.blkLen, hr.pwdLen, hr.offset⟩
        exact Good.some (sdResponse_inv hcmd _ _)
      apply hafter
      split_ifs
      · obtain ⟨r, hr, hinv⟩ := sdAppCommand_good hset hcommand'
        rw [hr]
        exact Good.some ⟨hinv.blkLen, hinv.pwdLen, hinv.offset⟩
      · exact sdNormalCommand_good hset hcommand'
  · rw [Bool.eq_false_iff.mpr hpresent, Bool.not_false, if_pos rfl]
    exact Good.some h

/-- One that does not faults. -/
theorem sdDoCommand_none {cmd : Nat} {arg : BitVec 32} (hpresent : sd.present = true)
    (hrefuses : sdLockRefuses sd.cardStatus cmd ≠ some true) (hfits : ¬CommandFits sd cmd arg) :
    sdDoCommand sd cmd arg = none := by
  unfold sdDoCommand
  rw [hpresent, Bool.not_true, if_neg Bool.false_ne_true]
  dsimp only
  cases hr : sdLockRefuses sd.cardStatus cmd with
  | none => rfl
  | some r =>
    obtain rfl : r = false := Bool.eq_false_iff.mpr fun h => hrefuses (hr.trans (congrArg some h))
    have hcommand : ¬CommandFits (sdSetStatus
        { sd with cardStatus := sd.cardStatus &&& ~~~CARD_STATUS_B }) cmd arg :=
      fun h => hfits ((CommandFits.status_iff _).mp (CommandFits.setStatus_iff.mp h))
    rw [Option.bind_some, if_neg Bool.false_ne_true, sdAppCommand_none hcommand,
      sdNormalCommand_none hcommand, Option.map_none, ite_self, Option.map_none]

/-! ### Data -/

section

variable {β : Type} {P : Option β → Prop} {f : SDState → Option β}

/-- A read that goes over the end of a sector takes the rest from the next one. -/
theorem bind_sdBlkRead {len : Nat} (hlen : len ≤ 512) (addr : Nat) (answers : BdrvAnswers)
    (hf : ∀ (buf data : CArray Byte 512), P (f { sd with buf := buf, data := data })) :
    P ((sdBlkRead sd addr len answers).bind f) := by
  have hmod : addr % 512 < 512 := Nat.mod_lt addr (by decide)
  unfold sdBlkRead
  split
  · exact hf sd.buf sd.data
  · split_ifs with hcross
    · rw [Option.bind_assoc]
      refine CArray.bind_slice (by omega) fun l hl => ?_
      rw [Option.bind_assoc]
      refine CArray.bind_copy (by omega) fun data => ?_
      split
      · exact hf _ data
      · rw [Option.bind_assoc]
        refine CArray.bind_slice (by omega) fun l' hl' => ?_
        rw [Option.map_eq_bind, Option.bind_assoc]
        exact CArray.bind_copy (by omega) fun data => hf _ data
    · rw [Option.bind_assoc]
      refine CArray.bind_slice (by omega) fun l hl => ?_
      rw [Option.map_eq_bind, Option.bind_assoc]
      exact CArray.bind_copy (by omega) fun data => hf _ data

/-- A write of a block changes the buffer only. -/
theorem bind_sdBlkWriteBuf {len : Nat} (hlen : len ≤ 512) (buf : CArray Byte 512) (addr : Nat)
    (answers : BdrvAnswers) (hf : ∀ buf : CArray Byte 512, P (f { sd with buf := buf })) :
    P ((sdBlkWriteBuf sd buf addr len answers).bind f) := by
  have hmod : addr % 512 < 512 := Nat.mod_lt addr (by decide)
  unfold sdBlkWriteBuf
  split_ifs with hcross hwrite
  · rw [Option.bind_assoc]
    refine CArray.bind_slice (by omega) fun l hl => ?_
    rw [Option.bind_assoc]
    exact CArray.bind_copy (by omega) fun buf => hf buf
  · rw [Option.bind_assoc]
    refine CArray.bind_slice (by omega) fun l hl => ?_
    rw [Option.bind_assoc]
    refine CArray.bind_copy (by omega) fun buf => ?_
    split
    · exact hf buf
    · rw [Option.bind_assoc]
      refine CArray.bind_slice (by omega) fun l' hl' => ?_
      rw [Option.map_eq_bind, Option.bind_assoc]
      exact CArray.bind_copy (by omega) fun buf => hf buf
  · rw [Option.bind_assoc]
    refine CArray.bind_slice (by omega) fun l hl => ?_
    rw [Option.map_eq_bind, Option.bind_assoc]
    exact CArray.bind_copy (by omega) fun buf => hf buf

theorem bind_sdBlkWrite {len : Nat} (hlen : len ≤ 512) (addr : Nat) (answers : BdrvAnswers)
    (hf : ∀ buf : CArray Byte 512, P (f { sd with buf := buf })) :
    P ((sdBlkWrite sd addr len answers).bind f) := by
  unfold sdBlkWrite
  split_ifs
  · split
    · exact hf sd.buf
    · exact bind_sdBlkWriteBuf hlen _ addr answers hf
  · exact bind_sdBlkWriteBuf hlen _ addr answers hf

end

/-- The lengths alone: at the end of a transfer the offset is behind the last byte. -/
structure SDState.Lengths (sd : SDState) : Prop where
  blkLen : sd.blkLen ≤ 512
  pwdLen : sd.pwdLen ≤ 16

theorem bind_sdStoreByte {β : Type} {P : Option β → Prop} {f : SDState → Option β} (h : sd.Inv)
    (hstate : sd.state = .receivingdata) (value : Byte)
    (hf : ∀ sd' : SDState, sd'.Lengths → sd'.dataOffset ≤ 512 → P (f sd')) :
    P ((sdStoreByte sd value).bind f) := by
  have hoffset : sd.dataOffset < 512 := h.offset (Or.inr hstate)
  unfold sdStoreByte
  rw [Option.map_eq_bind, Option.bind_assoc]
  exact CArray.bind_store hoffset fun data => hf _ ⟨h.blkLen, h.pwdLen⟩ hoffset

theorem SDState.Lengths.raise (h : sd.Lengths) (bits : BitVec 32) : (sd.raise bits).Lengths :=
  ⟨h.blkLen, h.pwdLen⟩

/-- A function returns, and leaves the lengths as they have to be. -/
def KeepsLengths (o : Option SDState) : Prop := ∃ sd, o = some sd ∧ sd.Lengths

theorem endTransfer_keeps (h : sd.Lengths) {limit : Nat} (hlimit : limit ≤ 512)
    {next : SDState → Option SDState} (hnext : KeepsLengths (next sd)) :
    Keeps (sd.endTransfer limit next) := by
  unfold SDState.endTransfer
  split_ifs with hend
  · obtain ⟨sd', heq, hsd⟩ := hnext
    rw [heq]
    exact ⟨_, rfl, hsd.blkLen, hsd.pwdLen, fun hstate => by cases hstate <;> contradiction⟩
  · exact ⟨sd, rfl, h.blkLen, h.pwdLen, fun _ => by omega⟩

theorem sdForceErase_keeps (h : sd.Lengths) (others : Bool) :
    KeepsLengths (sdForceErase sd others) := by
  unfold sdForceErase
  split_ifs
  · exact ⟨_, rfl, h.raise LOCK_UNLOCK_FAILED⟩
  · rw [Option.map_eq_bind]
    exact CArray.bind_fill (Nat.le_succ _) fun wpGroups => ⟨_, rfl, h.blkLen, Nat.zero_le 16⟩

theorem sdSetPwd_keeps (h : sd.Lengths) {newLen : Nat} (hnew : newLen ≤ 16)
    (hdata : 2 + sd.pwdLen + newLen ≤ 512) : KeepsLengths (sdSetPwd sd newLen) := by
  refine CArray.bind_slice hdata fun l hl => ?_
  rw [Option.map_eq_bind]
  exact CArray.bind_copy (by omega) fun pwd => ⟨_, rfl, h.blkLen, hnew⟩

/-- The lengths in the data are compared with those of the block and of the password. -/
theorem sdLockCommand_keeps (h : sd.Lengths) : KeepsLengths (sdLockCommand sd) := by
  have hblk := h.blkLen
  have hpwd := h.pwdLen
  unfold sdLockCommand
  dsimp only
  generalize (if 1 < sd.blkLen then (sd.data.cell 1).toNat else 0) = pwdLen
  -- the lengths are checked before either password is read
  by_cases herase : bit (sd.data.cell 0) 0x08 = true
  · rw [if_pos herase]
    exact sdForceErase_keeps h _
  rw [if_neg herase]
  by_cases hlens : sd.blkLen < 2 + pwdLen ∨ pwdLen ≤ sd.pwdLen ∨ sd.pwdLen + 16 < pwdLen
  · rw [if_pos hlens]
    exact ⟨_, rfl, h.raise LOCK_UNLOCK_FAILED⟩
  rw [if_neg hlens]
  refine CArray.bind_slice (by omega) fun given _ => ?_
  refine CArray.bind_slice (by omega) fun pwd _ => ?_
  by_cases hwrong : given ≠ pwd
  · rw [if_pos hwrong]
    exact ⟨_, rfl, h.raise LOCK_UNLOCK_FAILED⟩
  rw [if_neg hwrong]
  split
  · exact ⟨_, rfl, h.raise LOCK_UNLOCK_FAILED⟩
  have hset : KeepsLengths (if bit (sd.data.cell 0) 0x01 = true
      then sdSetPwd sd (pwdLen - sd.pwdLen) else some sd) := by
    split_ifs
    · exact sdSetPwd_keeps h (by omega) (by omega)
    · exact ⟨sd, rfl, h⟩
  obtain ⟨sd', heq, hsd⟩ := hset
  rw [heq]
  refine ⟨_, rfl, ?_⟩
  split_ifs
  · exact ⟨hsd.blkLen, Nat.zero_le 16⟩
  · exact ⟨hsd.blkLen, Nat.zero_le 16⟩
  · exact ⟨hsd.blkLen, hsd.pwdLen⟩
  · exact ⟨hsd.blkLen, hsd.pwdLen⟩

theorem sdProgramCid_lengths (h : sd.Lengths) : (sdProgramCid sd).Lengths := by
  unfold sdProgramCid
  dsimp only
  split_ifs
  · exact h.raise CID_CSD_OVERWRITE
  · exact ⟨h.blkLen, h.pwdLen⟩
  · exact h
  · exact ⟨h.blkLen, h.pwdLen⟩

theorem sdProgramCsd_lengths (h : sd.Lengths) : (sdProgramCsd sd).Lengths := by
  unfold sdProgramCsd
  dsimp only
  split_ifs <;> exact ⟨h.blkLen, h.pwdLen⟩

/-- The next block is looked up only in front of the end of the card. -/
theorem sdWriteMultiple_keeps (h : sd.Lengths) (hoffset : sd.dataOffset ≤ 512)
    (answers : BdrvAnswers) : Keeps (sdWriteMultiple sd answers) := by
  refine bind_sdBlkWrite hoffset _ answers fun buf => ?_
  dsimp only
  split_ifs with hend
  · exact ⟨_, rfl, h.blkLen, h.pwdLen, fun hstate => by cases hstate <;> contradiction⟩
  · have hfits : WriteFits sd (sd.dataStart + sd.blkLen) := by
      have hmod : (sd.dataStart + sd.blkLen) % 2 ^ 32 ≤ sd.dataStart + sd.blkLen := Nat.mod_le _ _
      unfold WriteFits wpGroupCount
      rw [wpGroup_eq, wpGroup_eq]
      omega
    obtain ⟨wp, hwp⟩ := (sdWpAddr_iff sd _).mpr hfits
    unfold sdWpAddr at hwp ⊢
    dsimp only
    rw [hwp, Option.map_some]
    refine ⟨_, rfl, ?_⟩
    split_ifs
    · exact ⟨h.blkLen, h.pwdLen, fun hstate => by cases hstate <;> contradiction⟩
    · exact ⟨h.blkLen, h.pwdLen, fun _ => Nat.zero_lt_succ 511⟩

/-- No write goes out of bounds. -/
theorem sdWriteData_keeps (h : sd.Inv) (value : Byte) (answers : BdrvAnswers) :
    Keeps (sdWriteData sd value answers) := by
  unfold sdWriteData
  by_cases hpresent : (!sd.present) = true
  · rw [if_pos hpresent]
    exact ⟨sd, rfl, h⟩
  rw [if_neg hpresent]
  by_cases hstate : sd.state ≠ .receivingdata
  · rw [if_pos hstate]
    exact ⟨sd, rfl, h⟩
  rw [if_neg hstate]
  rw [not_not] at hstate
  split
  · exact ⟨sd, rfl, h⟩
  split
  · refine bind_sdStoreByte h hstate value fun sd' hsd hoffset => ?_
    refine endTransfer_keeps hsd hsd.blkLen ?_
    rw [Option.map_eq_bind]
    exact bind_sdBlkWrite hoffset _ answers fun buf => ⟨_, rfl, hsd.blkLen, hsd.pwdLen⟩
  · refine bind_sdStoreByte h hstate value fun sd' hsd hoffset => ?_
    split_ifs with hend
    · exact sdWriteMultiple_keeps hsd hoffset answers
    · have hlt : sd'.dataOffset < 512 := Nat.lt_of_lt_of_le (Nat.lt_of_not_le hend) hsd.blkLen
      exact ⟨sd', rfl, hsd.blkLen, hsd.pwdLen, fun _ => hlt⟩
  · exact bind_sdStoreByte h hstate value fun sd' hsd _ =>
      endTransfer_keeps hsd (by decide) ⟨_, rfl, sdProgramCid_lengths hsd⟩
  · exact bind_sdStoreByte h hstate value fun sd' hsd _ =>
      endTransfer_keeps hsd (by decide) ⟨_, rfl, sdProgramCsd_lengths hsd⟩
  · exact bind_sdStoreByte h hstate value fun sd' hsd _ =>
      endTransfer_keeps hsd hsd.blkLen (sdLockCommand_keeps hsd)
  · exact bind_sdStoreByte h hstate value fun sd' hsd _ =>
      endTransfer_keeps hsd hsd.blkLen ⟨sd', rfl, hsd⟩
  · exact ⟨sd, rfl, h⟩

theorem sdLoadByte_good (h : sd.Inv) {n : Nat} {a : CArray Byte n} {limit : Nat}
    (hlimit : limit ≤ 512) (hoffset : sd.dataOffset < n) : Good (sdLoadByte sd a limit) := by
  unfold sdLoadByte
  rw [CArray.load_of_lt hoffset]
  refine Good.some ⟨h.blkLen, h.pwdLen, fun hstate => ?_⟩
  dsimp only at hstate ⊢
  split_ifs at hstate with hend
  · cases hstate <;> contradiction
  · omega

theorem sdLoadByte_none {n : Nat} {a : CArray Byte n} {limit : Nat} (hoffset : n ≤ sd.dataOffset) :
    sdLoadByte sd a limit = none := by
  unfold sdLoadByte
  rw [CArray.load_eq_none hoffset]
  rfl

/-- The buffer is filled at the start of a block. -/
theorem bind_sdFillBlock {β : Type} {P : Option β → Prop} {f : SDState → Option β} {ioLen : Nat}
    (h : sd.Inv) (hstate : sd.state = .sendingdata) (hlen : ioLen ≤ 512) (answers : BdrvAnswers)
    (hf : ∀ sd' : SDState, sd'.Inv → sd'.dataOffset < 512 → P (f sd')) :
    P ((sdFillBlock sd ioLen answers).bind f) := by
  have hoffset := h.offset (Or.inl hstate)
  unfold sdFillBlock
  split_ifs
  · exact bind_sdBlkRead hlen _ answers fun buf data =>
      hf _ ⟨h.blkLen, h.pwdLen, h.offset⟩ hoffset
  · exact hf sd h hoffset

/-- A read of several blocks goes on. -/
theorem sdReadMultiple_good (h : sd.Inv) (hstate : sd.state = .sendingdata) {ioLen : Nat}
    (hlen : ioLen ≤ 512) (answers : BdrvAnswers) : Good (sdReadMultiple sd ioLen answers) := by
  refine bind_sdFillBlock h hstate hlen answers fun sd' hsd hoffset => ?_
  rw [CArray.load_of_lt hoffset]
  refine Good.some ?_
  dsimp only
  split_ifs with hend hsize
  · exact ⟨hsd.blkLen, hsd.pwdLen, fun _ => Nat.zero_lt_succ 511⟩
  · exact ⟨hsd.blkLen, hsd.pwdLen, fun _ => Nat.zero_lt_succ 511⟩
  · exact ⟨hsd.blkLen, hsd.pwdLen, fun _ => Nat.lt_of_lt_of_le (Nat.lt_of_not_le hend) hlen⟩

/-- A byte of the card's status or of its configuration register is in front of the end of it.
The number of the command can be a later one than that which has started the transfer. -/
def ReadFits (sd : SDState) : Prop :=
  sd.present = true → sd.state = .sendingdata → sd.has (ADDRESS_ERROR ||| WP_VIOLATION) = false →
    (sd.currentCmd = 13 → sd.dataOffset < 64) ∧ (sd.currentCmd = 51 → sd.dataOffset < 8)

/-- A read that fits returns. -/
theorem sdReadData_good (h : sd.Inv) (hfits : ReadFits sd) (answers : BdrvAnswers) :
    Good (sdReadData sd answers) := by
  unfold sdReadData
  by_cases hpresent : sd.present = true
  swap
  · rw [Bool.eq_false_iff.mpr hpresent, Bool.not_false, if_pos rfl]
    exact Good.some h
  rw [hpresent, Bool.not_true, if_neg Bool.false_ne_true]
  by_cases hstate : sd.state = .sendingdata
  swap
  · rw [if_pos hstate]
    exact Good.some h
  rw [if_neg (not_not.mpr hstate)]
  by_cases herror : sd.has (ADDRESS_ERROR ||| WP_VIOLATION) = true
  · rw [if_pos herror]
    exact Good.some h
  rw [if_neg herror]
  obtain ⟨hstatus, hscr⟩ := hfits hpresent hstate (Bool.eq_false_iff.mpr herror)
  have hoffset := h.offset (Or.inl hstate)
  have hlen : (if sd.ocr &&& 1 <<< 30 ≠ 0 then 512 else sd.blkLen) ≤ 512 := by
    split_ifs
    · exact Nat.le_refl 512
    · exact h.blkLen
  dsimp only
  -- a block is at most the buffer, so only the status and `SCR` can be read past
  generalize (if sd.ocr &&& 1 <<< 30 ≠ 0 then 512 else sd.blkLen) = ioLen at hlen ⊢
  split
  · exact sdLoadByte_good h (by decide) hoffset
  · exact sdLoadByte_good h (by decide) hoffset
  · exact sdLoadByte_good h (by decide) hoffset
  · exact sdReadMultiple_good h hstate hlen answers
  · exact sdLoadByte_good h (by decide) (hstatus ‹_›)
  · exact bind_sdFillBlock h hstate hlen answers fun sd' hsd hoff => sdLoadByte_good hsd hlen hoff
  · exact sdReadMultiple_good h hstate hlen answers
  · exact sdLoadByte_good h (by decide) hoffset
  · exact sdLoadByte_good h (by decide) hoffset
  · exact sdLoadByte_good h (by decide) (hscr ‹_›)
  · split_ifs
    · rw [Option.map_eq_bind, Option.bind_assoc]
      refine CArray.bind_fill h.blkLen fun data => ?_
      exact @sdLoadByte_good { sd with data := data } ⟨h.blkLen, h.pwdLen, h.offset⟩ 512 data
        sd.blkLen h.blkLen hoffset
    · exact sdLoadByte_good h h.blkLen hoffset
  · exact Good.some h

/-- One that does not faults. -/
theorem sdReadData_none (hfits : ¬ReadFits sd) (answers : BdrvAnswers) :
    sdReadData sd answers = none := by
  unfold ReadFits at hfits
  simp only [Classical.not_imp] at hfits
  obtain ⟨hpresent, hstate, herror, hfits⟩ := hfits
  unfold sdReadData
  rw [hpresent, Bool.not_true, if_neg Bool.false_ne_true, if_neg (not_not.mpr hstate), herror,
    if_neg Bool.false_ne_true]
  dsimp only
  rcases not_and_or.mp hfits with hstatus | hscr
  · obtain ⟨hcmd, hoffset⟩ := Classical.not_imp.mp hstatus
    rw [hcmd]
    exact sdLoadByte_none (Nat.le_of_not_lt hoffset)
  · obtain ⟨hcmd, hoffset⟩ := Classical.not_imp.mp hscr
    rw [hcmd]
    exact sdLoadByte_none (Nat.le_of_not_lt hoffset)

/-! ### Runs -/

/-- The accesses of an action that the card does not guard are in bounds. -/
def SdAction.InBounds (sd : SDState) : SdAction → Prop
  | .sendCommand cmdreg cmdarg =>
    sd.present = true → sdLockRefuses sd.cardStatus (cmdreg >>> 8).toNat ≠ some true →
      CommandFits sd (cmdreg >>> 8).toNat cmdarg
  | .readData _ => ReadFits sd
  | .writeData _ _ => True

theorem SdAction.exec_keeps (h : sd.Inv) {a : SdAction} (ha : a.InBounds sd) :
    Keeps (a.exec sd) := by
  cases a with
  | sendCommand cmdreg cmdarg =>
    obtain ⟨r, heq, hr⟩ := sdDoCommand_good h ha
    exact ⟨r.1, congrArg (Option.map Prod.fst) heq, hr⟩
  | readData answers =>
    obtain ⟨r, heq, hr⟩ := sdReadData_good h ha answers
    exact ⟨r.1, congrArg (Option.map Prod.fst) heq, hr⟩
  | writeData value answers => exact sdWriteData_keeps h value answers

theorem SdAction.exec_none {a : SdAction} (ha : ¬a.InBounds sd) : a.exec sd = none := by
  cases a with
  | sendCommand cmdreg cmdarg =>
    unfold SdAction.InBounds at ha
    simp only [Classical.not_imp] at ha
    obtain ⟨hpresent, hrefuses, hfits⟩ := ha
    exact congrArg (Option.map Prod.fst) (sdDoCommand_none hpresent hrefuses hfits)
  | readData answers => exact congrArg (Option.map Prod.fst) (sdReadData_none ha answers)
  | writeData value answers => exact absurd trivial ha

end

/-- **Bounds of the card's arrays.**  Every access of a run is in bounds exactly when those that the
card does not guard are. -/
theorem sd_inBounds (bdrv : Option SdBdrv) (spi : Bool) (actions : List SdAction) :
    (∃ sd, runFrom SdAction.exec (sdInit bdrv spi) actions = some sd) ↔
      StepsMeet SdAction.exec (fun sd a => a.InBounds sd) (sdInit bdrv spi) actions :=
  runFrom_exact (I := SDState.Inv) (fun _ _ h ha => SdAction.exec_keeps h ha)
    (fun _ _ _ ha => SdAction.exec_none ha) (sdInit_inv bdrv spi) actions

/-- A command with a number from 64 on is behind the end of the tables. -/
theorem sd_inBounds_fails :
    ¬∀ (bdrv : Option SdBdrv) (spi : Bool) (actions : List SdAction),
      ∃ sd, runFrom SdAction.exec (sdInit bdrv spi) actions = some sd := by
  intro h
  obtain ⟨sd, hsd⟩ := h (some ⟨2048, false, true⟩) false [.sendCommand 0x4000 0]
  exact Option.some_ne_none sd (hsd.symm.trans rfl)

end Qemu.Hw
