import Qemu.Hw.SdBounds

namespace Qemu.Hw

open Lib

/-!
# The size of the SD card

* `SDState.Sized` — the card is not shorter than its medium;
* `SdAfter` — what a function leaves, if it returns;
* `SdAction.exec_sized` — no function of the card changes that.
-/

/-- The bytes of the medium. -/
def SDState.bytes (sd : SDState) : Nat :=
  match sd.bdrv with
  | none => 0
  | some b => if b.inserted then b.sectors * 512 else 0

/-- The card is not shorter than its medium. -/
def SDState.Sized (sd : SDState) : Prop := sd.bytes ≤ sd.size

/-- What a function leaves has a property, if it returns. -/
def SdAfter {α : Type} (P : SDState → Prop) (card : α → SDState) (o : Option α) : Prop :=
  ∀ r, o = some r → P (card r)

section

variable {α β : Type} {P : SDState → Prop} {card : α → SDState} {sd : SDState}

theorem SdAfter.returned {r : α} (h : P (card r)) : SdAfter P card (some r) := by
  intro r' hr
  obtain rfl := Option.some.inj hr
  exact h

theorem SdAfter.bind {o : Option β} {f : β → Option α}
    (h : ∀ b, o = some b → SdAfter P card (f b)) : SdAfter P card (o.bind f) := by
  intro r hr
  obtain ⟨b, hb, hr⟩ := Option.bind_eq_some_iff.mp hr
  exact h b hb r hr

theorem SdAfter.map {o : Option β} {f : β → α} (h : ∀ b, o = some b → P (card (f b))) :
    SdAfter P card (o.map f) := by
  intro r hr
  obtain ⟨b, hb, rfl⟩ := Option.map_eq_some_iff.mp hr
  exact h b hb

theorem SdAfter.ite {c : Prop} [Decidable c] {o o' : Option α} (h : SdAfter P card o)
    (h' : SdAfter P card o') : SdAfter P card (if c then o else o') := by
  split_ifs
  · exact h
  · exact h'

/-- A function leaves a card that is not shorter than its medium. -/
abbrev SizedAfter (card : α → SDState) (o : Option α) : Prop := SdAfter SDState.Sized card o

theorem sdReset_sized (sd : SDState) (bdrv : Option SdBdrv) : (sdReset sd bdrv).Sized := by
  cases bdrv with
  | none => exact Nat.zero_le _
  | some b =>
    show (if b.inserted then b.sectors * 512 else 0) ≤ b.sectors <<< 9 + 1
    rw [Nat.shiftLeft_eq]
    split_ifs <;> omega

theorem sdIllegal_sized (h : sd.Sized) : SizedAfter Prod.fst (sdIllegal sd) := .returned h

theorem inState_sized (h : sd.Sized) {state : SdCardState} {next : Option SdResult}
    (hnext : SizedAfter Prod.fst next) : SizedAfter Prod.fst (sd.inState state next) := by
  rw [SDState.inState]
  split_ifs
  · exact hnext
  · exact sdIllegal_sized h

theorem notSpi_sized (h : sd.Sized) {next : Option SdResult} (hnext : SizedAfter Prod.fst next) :
    SizedAfter Prod.fst (sd.notSpi next) := by
  rw [SDState.notSpi]
  split_ifs
  · exact sdIllegal_sized h
  · exact hnext

theorem checkAddress_sized (h : sd.Sized) : sd.checkAddress.Sized := by
  rw [SDState.checkAddress]
  split_ifs <;> exact h

theorem sdReadBlock_sized (h : sd.Sized) (addr : Nat) : SizedAfter Prod.fst (sdReadBlock sd addr) :=
  have hstart : (sd.startData .sendingdata addr).Sized := h
  inState_sized h (.returned (checkAddress_sized hstart))

theorem sdWriteBlock_sized (h : sd.Sized) (addr : Nat) :
    SizedAfter Prod.fst (sdWriteBlock sd addr) := by
  have hstart : ({ (sd.startData .receivingdata addr) with blkWritten := 0 } : SDState).Sized := h
  have hcheck := checkAddress_sized hstart
  refine notSpi_sized h (inState_sized h ?_)
  dsimp only
  refine .map fun wp _ => ?_
  split_ifs <;> exact hcheck

theorem sdSetWriteProt_sized (h : sd.Sized) (addr : Nat) (wp : Bool) :
    SizedAfter Prod.fst (sdSetWriteProt sd addr wp) := by
  refine inState_sized h ?_
  split_ifs
  · exact .returned h
  · exact .map fun _ _ => h

theorem sdSendRegister_sized (h : sd.Sized) (rca : BitVec 32) (addr : Nat)
    (register : CArray Byte 16) (rsp : SdRspType) :
    SizedAfter Prod.fst (sdSendRegister sd rca addr register rsp) := by
  rw [sdSendRegister]
  split
  · exact .returned h
  · split_ifs
    · exact .returned h
    · exact sdIllegal_sized h
  · exact sdIllegal_sized h

theorem sdSelectCard_sized (h : sd.Sized) (rca : BitVec 32) :
    SizedAfter Prod.fst (sdSelectCard sd rca) := by
  rw [sdSelectCard]
  split <;> try split_ifs
  all_goals exact .returned h

/-- No command sizes the card anew. -/
theorem sdNormalCommand_sized (h : sd.Sized) (cmd : Nat) (arg : BitVec 32) :
    SizedAfter Prod.fst (sdNormalCommand sd cmd arg) := by
  refine .bind fun type _ => ?_
  dsimp only
  -- one command after the other, in the order of the `switch`
  split
  · split
    · exact .returned h
    · exact .returned (sdReset_sized _ _)
  · split_ifs <;> exact .returned h
  · exact notSpi_sized h (inState_sized h (.returned h))
  · refine notSpi_sized h ?_
    split_ifs <;> exact .returned h
  · exact sdIllegal_sized h
  · refine notSpi_sized h ?_
    split_ifs
    · refine .map fun sd' hsd' => ?_
      rw [sdFunctionSwitch] at hsd'
      obtain ⟨message, -, rfl⟩ := Option.map_eq_some_iff.mp hsd'
      exact h
    · exact sdIllegal_sized h
  · exact notSpi_sized h (sdSelectCard_sized h _)
  · refine inState_sized h ?_
    split_ifs <;> exact .returned h
  · exact sdSendRegister_sized h _ _ _ _
  · exact sdSendRegister_sized h _ _ _ _
  · have hstart : (sd.startData .sendingdata arg.toNat).Sized := h
    exact notSpi_sized h (inState_sized h (.returned (checkAddress_sized hstart)))
  · rw [sdStopTransmission]
    split <;> exact .returned h
  · split_ifs <;> exact .returned h
  · refine notSpi_sized h ?_
    split_ifs <;> exact .returned h
  · refine inState_sized h ?_
    split_ifs <;> exact .returned h
  · exact sdReadBlock_sized h _
  · exact sdReadBlock_sized h _
  · exact sdWriteBlock_sized h _
  · exact sdWriteBlock_sized h _
  · exact notSpi_sized h (inState_sized h (.returned h))
  · exact notSpi_sized h (inState_sized h (.returned h))
  · exact sdSetWriteProt_sized h _ _
  · exact sdSetWriteProt_sized h _ _
  · exact inState_sized h (.map fun _ _ => h)
  · exact inState_sized h (.returned h)
  · exact inState_sized h (.returned h)
  · refine inState_sized h ?_
    split_ifs
    · exact .returned h
    · refine .map fun sd' hsd' => ?_
      rw [sdErase] at hsd'
      split_ifs at hsd'
      · obtain rfl := Option.some.inj hsd'
        exact h
      · obtain ⟨status, -, rfl⟩ := Option.map_eq_some_iff.mp hsd'
        exact h
  · exact notSpi_sized h (inState_sized h (.returned h))
  · split_ifs <;> exact .returned h
  · exact inState_sized h (.returned h)
  · exact sdIllegal_sized h

theorem sdAppInState_sized (h : sd.Sized) {state : SdCardState} {next : SdResult}
    (hnext : next.1.Sized) : (sdAppInState sd state next).1.Sized := by
  rw [sdAppInState]
  split_ifs
  · exact hnext
  · exact h

theorem sdAppCommand_sized (h : sd.Sized) (cmd : Nat) (arg : BitVec 32) :
    SizedAfter Prod.fst (sdAppCommand sd cmd arg) := by
  refine .bind fun type _ => ?_
  split
  all_goals try exact .returned (sdAppInState_sized h h)
  · split_ifs
    · exact .returned h
    · exact .returned (sdAppInState_sized h h)
    · exact .returned (sdAppInState_sized h h)
  · have hstatus : ({ sd with cardStatus := sd.cardStatus &&& ~~~APP_CMD } : SDState).Sized := h
    exact sdNormalCommand_sized hstatus _ _

theorem sdResponse_sized (h : sd.Sized) (lastStatus : BitVec 32) (rsp : SdRspType) :
    (sdResponse sd lastStatus rsp).1.Sized := by
  cases rsp <;> exact h

/-- No request sizes the card anew. -/
theorem sdDoCommand_sized (h : sd.Sized) (cmd : Nat) (arg : BitVec 32) :
    SizedAfter Prod.fst (sdDoCommand sd cmd arg) := by
  have hset : (sdSetStatus { sd with cardStatus := sd.cardStatus &&& ~~~CARD_STATUS_B }).Sized := h
  have hanswer : ∀ r : SdResult, r.1.Sized →
      (sdResponse { r.1 with currentCmd := cmd } sd.cardStatus r.2).1.Sized := by
    intro r hr
    have hcmd : ({ r.1 with currentCmd := cmd } : SDState).Sized := hr
    exact sdResponse_sized hcmd _ _
  rw [sdDoCommand]
  split_ifs
  · exact .returned h
  · refine .bind fun refuses _ => ?_
    split_ifs
    · exact .returned h
    · refine .map fun r hr => hanswer r ?_
      obtain ⟨r', hr', rfl⟩ := Option.map_eq_some_iff.mp hr
      exact sdAppCommand_sized hset cmd arg r' hr'
    · exact .map fun r hr => hanswer r (sdNormalCommand_sized hset cmd arg r hr)

theorem sdBlkRead_after (h : ∀ buf data, P { sd with buf := buf, data := data }) (addr len : Nat)
    (answers : BdrvAnswers) : SdAfter P id (sdBlkRead sd addr len answers) := by
  rw [sdBlkRead]
  split
  · exact .returned (h sd.buf sd.data)
  · refine .ite ?_ (.bind fun _ _ => .map fun _ _ => h _ _)
    refine .bind fun _ _ => .bind fun _ _ => ?_
    split
    · exact .returned (h _ _)
    · exact .bind fun _ _ => .map fun _ _ => h _ _

/-- What a byte that is read can change. -/
structure SDState.ReadFrom (sd sd' : SDState) : Prop where
  bytes : sd'.bytes = sd.bytes
  size : sd'.size = sd.size
  state : sd'.state = sd.state ∨ sd'.state = .transfer

theorem sdLoadByte_readFrom {sd' : SDState} (h : sd.ReadFrom sd') {n : Nat} (a : CArray Byte n)
    (limit : Nat) : SdAfter sd.ReadFrom Prod.fst (sdLoadByte sd' a limit) := by
  refine .map fun ret _ => ⟨h.bytes, h.size, ?_⟩
  dsimp only
  split_ifs
  · exact .inr rfl
  · exact h.state

theorem sdFillBlock_readFrom (ioLen : Nat) (answers : BdrvAnswers) :
    SdAfter sd.ReadFrom id (sdFillBlock sd ioLen answers) :=
  .ite (sdBlkRead_after (fun _ _ => ⟨rfl, rfl, .inl rfl⟩) _ _ _) (.returned ⟨rfl, rfl, .inl rfl⟩)

theorem sdReadMultiple_readFrom (ioLen : Nat) (answers : BdrvAnswers) :
    SdAfter sd.ReadFrom Prod.fst (sdReadMultiple sd ioLen answers) := by
  refine .bind fun sd' hsd' => .map fun ret _ => ?_
  have hfill : sd.ReadFrom sd' := sdFillBlock_readFrom ioLen answers sd' hsd'
  dsimp only
  split_ifs <;> exact ⟨hfill.bytes, hfill.size, hfill.state⟩

/-- A read moves the offset and changes the buffer at most. -/
theorem sdReadData_readFrom (answers : BdrvAnswers) :
    SdAfter sd.ReadFrom Prod.fst (sdReadData sd answers) := by
  have hsame : sd.ReadFrom sd := ⟨rfl, rfl, .inl rfl⟩
  refine .ite (.returned hsame) (.ite (.returned hsame) (.ite (.returned hsame) ?_))
  dsimp only
  split
  case h_4 | h_7 => exact sdReadMultiple_readFrom _ _
  case h_6 =>
    refine .bind fun sd' hsd' => sdLoadByte_readFrom ?_ _ _
    exact sdFillBlock_readFrom _ _ sd' hsd'
  case h_11 =>
    have hfill : SdAfter sd.ReadFrom id (if sd.dataOffset = 0 then
        (sd.data.fill sd.blkLen 0xec).map fun data => { sd with data := data } else some sd) :=
      .ite (.map fun _ _ => ⟨rfl, rfl, .inl rfl⟩) (.returned hsame)
    exact .bind fun sd' hsd' => sdLoadByte_readFrom (hfill sd' hsd') _ _
  case h_12 => exact .returned hsame
  all_goals exact sdLoadByte_readFrom hsame _ _

theorem sdReadData_other (h : sd.state ≠ .sendingdata) (answers : BdrvAnswers) :
    sdReadData sd answers = some (sd, 0) := by
  rw [sdReadData]
  by_cases hpresent : (!sd.present) = true
  · rw [if_pos hpresent]
  · rw [if_neg hpresent, if_pos h]

theorem sdReadData_sized (h : sd.Sized) (answers : BdrvAnswers) :
    SizedAfter Prod.fst (sdReadData sd answers) := by
  intro r hr
  have hread := sdReadData_readFrom answers r hr
  rw [SDState.Sized, hread.bytes, hread.size]
  exact h

theorem sdBlkWriteBuf_after (h : ∀ buf, P { sd with buf := buf }) (buf : CArray Byte 512)
    (addr len : Nat) (answers : BdrvAnswers) :
    SdAfter P id (sdBlkWriteBuf sd buf addr len answers) := by
  refine .ite (.bind fun _ _ => .bind fun _ _ => .ite (.returned (h _)) ?_)
    (.bind fun _ _ => .map fun _ _ => h _)
  split
  · exact .returned (h _)
  · exact .bind fun _ _ => .map fun _ _ => h _

theorem sdBlkWrite_after (h : ∀ buf, P { sd with buf := buf }) (addr len : Nat)
    (answers : BdrvAnswers) : SdAfter P id (sdBlkWrite sd addr len answers) := by
  refine .ite ?_ (sdBlkWriteBuf_after h _ _ _ _)
  split
  · exact .returned (h sd.buf)
  · exact sdBlkWriteBuf_after h _ _ _ _

theorem endTransfer_sized (h : sd.Sized) (limit : Nat) {next : SDState → Option SDState}
    (hnext : SizedAfter id (next sd)) : SizedAfter id (sd.endTransfer limit next) := by
  rw [SDState.endTransfer]
  split_ifs
  · exact .map fun sd' hsd' => hnext sd' hsd'
  · exact .returned h

theorem sdForceErase_sized (h : sd.Sized) (others : Bool) :
    SizedAfter id (sdForceErase sd others) := .ite (.returned h) (.map fun _ _ => h)

theorem sdSetPwd_sized (h : sd.Sized) (newLen : Nat) : SizedAfter id (sdSetPwd sd newLen) :=
  .bind fun _ _ => .map fun _ _ => h

theorem sdLockCommand_sized (h : sd.Sized) : SizedAfter id (sdLockCommand sd) := by
  refine .ite (sdForceErase_sized h _) (.ite (.returned h) ?_)
  refine .bind fun given _ => .bind fun pwd _ => .ite (.returned h) (.ite (.returned h) ?_)
  refine .map fun sd' hsd' => ?_
  have hset : sd'.Sized := SdAfter.ite (sdSetPwd_sized h _) (.returned h) sd' hsd'
  show SDState.Sized (if bit (sd.data.cell 0) 0x02 then { sd' with pwdLen := 0 } else sd')
  split_ifs <;> exact hset

theorem raise_sized (h : sd.Sized) {c : Prop} [Decidable c] (bits : BitVec 32) :
    SDState.Sized (if c then sd.raise bits else sd) := by
  split_ifs <;> exact h

theorem sdProgramCid_sized (h : sd.Sized) : (sdProgramCid sd).Sized := by
  have hdone : ∀ sd' : SDState, sd'.Sized → SDState.Sized (if sd'.has CID_CSD_OVERWRITE then sd'
      else { sd' with cid := ⟨fun i => sd'.cid.cell i &&& sd'.data.cell i⟩ }) := by
    intro sd' hsd'
    split_ifs <;> exact hsd'
  exact hdone _ (raise_sized h _)

theorem sdProgramCsd_sized (h : sd.Sized) : (sdProgramCsd sd).Sized := by
  have hdone : ∀ sd' : SDState, sd'.Sized → SDState.Sized (if sd'.has CID_CSD_OVERWRITE then sd'
      else { sd' with csd :=
        ⟨fun i => (sd'.csd.cell i ||| sdCsdRwMask.getD i 0) &&& sd'.data.cell i⟩ }) := by
    intro sd' hsd'
    split_ifs <;> exact hsd'
  exact hdone _ (raise_sized (raise_sized h _) _)

theorem sdWriteMultiple_sized (h : sd.Sized) (answers : BdrvAnswers) :
    SizedAfter id (sdWriteMultiple sd answers) := by
  refine .bind fun sd' hsd' => ?_
  have hwrite : sd'.Sized := sdBlkWrite_after (fun _ => h) _ _ answers sd' hsd'
  dsimp only
  split_ifs
  · exact .returned hwrite
  · refine .map fun wp _ => ?_
    split_ifs <;> exact hwrite

/-- No write sizes the card anew. -/
theorem sdWriteData_sized (h : sd.Sized) (value : Byte) (answers : BdrvAnswers) :
    SizedAfter id (sdWriteData sd value answers) := by
  rw [sdWriteData]
  split_ifs
  · exact .returned h
  · exact .returned h
  · exact .returned h
  · have hstore : ∀ sd', sdStoreByte sd value = some sd' → sd'.Sized :=
      SdAfter.map fun _ _ => h
    split
    · refine .bind fun sd' hsd' => endTransfer_sized (hstore sd' hsd') _ (.map fun sd'' hsd'' => ?_)
      have hwrite : sd''.Sized :=
        sdBlkWrite_after (fun _ => hstore sd' hsd') _ _ answers sd'' hsd''
      exact hwrite
    · refine .bind fun sd' hsd' => ?_
      split_ifs
      · exact sdWriteMultiple_sized (hstore sd' hsd') answers
      · exact .returned (hstore sd' hsd')
    · exact .bind fun sd' hsd' => endTransfer_sized (hstore sd' hsd') _
        (.returned (sdProgramCid_sized (hstore sd' hsd')))
    · exact .bind fun sd' hsd' => endTransfer_sized (hstore sd' hsd') _
        (.returned (sdProgramCsd_sized (hstore sd' hsd')))
    · exact .bind fun sd' hsd' => endTransfer_sized (hstore sd' hsd') _
        (sdLockCommand_sized (hstore sd' hsd'))
    · exact .bind fun sd' hsd' => endTransfer_sized (hstore sd' hsd') _
        (.returned (hstore sd' hsd'))
    · exact .returned h

/-- **The size of the card** is never less than that of the device. -/
theorem SdAction.exec_sized (h : sd.Sized) (a : SdAction) : SizedAfter id (a.exec sd) := by
  cases a with
  | sendCommand cmdreg cmdarg => exact .map fun r hr => sdDoCommand_sized h _ _ r hr
  | readData answers => exact .map fun r hr => sdReadData_sized h answers r hr
  | writeData value answers => exact sdWriteData_sized h value answers

end

end Qemu.Hw
