import Qemu.Hw.SdBlk
import Qemu.Hw.SdSize

namespace Qemu.Hw

open Lib

/-!
# Write protection and the lock of the SD card

* `SdCard` — a card, and the bytes of its device;
* `SdCardOp` — what the controller does with it, with the answers of the block layer;
* `SDState.Protected` — the bytes that a write must not change;
* `SdCard.Guarded` — what the guest has to see to, as the card does not: that the first block of a
  write, and the last bytes of each further one, are not protected, and that a locked card is not
  sent other commands than those it is to execute;
* `SDState.Armed` — the invariant: what is to be written next is not protected;
* `sd_protects` — then no protected byte is changed, and the lock holds.
-/

/-! ### The card and its device -/

/-- The values that the driver returns for the requests of one block. -/
structure SdRets where
  read1 : Int
  write1 : Int
  read2 : Int
  write2 : Int

/-- The driver is asked. -/
def SDState.bdrvCall (sd : SDState) (ret : Int) : BdrvCall :=
  ⟨sd.bdrv.any SdBdrv.inserted, ↑sd.bytes, ret⟩

/-- The medium does not grow, and is as long as it was when it was put in. -/
def SDState.host (sd : SDState) (rets : SdRets) : SdHost where
  bdrv := sd.bdrv.map fun b => ⟨true, false, b.readOnly⟩
  read1 := sd.bdrvCall rets.read1
  write1 := sd.bdrvCall rets.write1
  read2 := sd.bdrvCall rets.read2
  write2 := sd.bdrvCall rets.write2

/-- The card with the cells of its medium. -/
structure SdCard where
  sd : SDState
  cell : Nat → Byte

/-- What the controller and the host do with the card.  The buffer of the card, and what a read
    leaves there, may be anything: they fill up sectors of which only a part is written. -/
inductive SdCardOp
  | sendCommand (cmdreg : BitVec 16) (cmdarg : BitVec 32)
  | readData (answers : BdrvAnswers)
  | writeData (value : Byte) (answers : BdrvAnswers) (buf : CArray Byte 512) (rets : SdRets)
    (faults : SdFaults)
  | enable (on : Bool)
  /-- The medium is taken out, or another one is put in. -/
  | cardchange (bdrv : SdBdrv) (cell : Nat → Byte)

/-- `sd_enable` -/
def sdEnable (sd : SDState) (on : Bool) : SDState := { sd with enable := on }

/-- `sd_cardchange`, which only a card with a device asks to be called. -/
def sdCardchange (sd : SDState) (bdrv : SdBdrv) : SDState :=
  if sd.bdrv = none then sd
  else if bdrv.inserted then sdReset sd (some bdrv)
  else { sd with bdrv := some bdrv }

/-- The card after an operation. -/
def SdCardOp.next (sd : SDState) : SdCardOp → Option SDState
  | .sendCommand cmdreg cmdarg => SdAction.exec sd (.sendCommand cmdreg cmdarg)
  | .readData answers => SdAction.exec sd (.readData answers)
  | .writeData value answers _ _ _ => SdAction.exec sd (.writeData value answers)
  | .enable on => some (sdEnable sd on)
  | .cardchange bdrv _ => some (sdCardchange sd bdrv)

/-- The card waits for bytes of CMD24 or CMD25. -/
def SDState.awaitsBlockData (sd : SDState) : Bool :=
  decide (sd.state = .receivingdata) && (!sd.has (ADDRESS_ERROR ||| WP_VIOLATION) &&
    (decide (sd.currentCmd = 24) || decide (sd.currentCmd = 25)))

/-- `sd_write_data` takes a byte of CMD24 or CMD25. -/
def SDState.takesBlockData (sd : SDState) : Bool := sd.present && sd.awaitsBlockData

/-- The device after an operation: `sd_blk_write` is called with the last byte of a block. -/
def SdCard.cellAfter (card : SdCard) : SdCardOp → Option (Nat → Byte)
  | .writeData value _ buf rets faults =>
    if card.sd.takesBlockData then
      (sdStoreByte card.sd value).bind fun sd =>
        if sd.blkLen ≤ sd.dataOffset then
          (SdBlk.blkWrite (sd.host rets) faults ⟨buf, sd.data, card.cell, []⟩ sd.dataStart
            sd.dataOffset).map SdBlk.cell
        else some card.cell
    else some card.cell
  | .cardchange _ cell => some cell
  | _ => some card.cell

/-- One operation on the card. -/
def SdCard.exec (card : SdCard) (op : SdCardOp) : Option SdCard :=
  (op.next card.sd).bind fun sd => (card.cellAfter op).map (SdCard.mk sd)

/-! ### What is protected -/

/-- A byte that CMD24 and CMD25 must not change. -/
def SDState.Protected (sd : SDState) (addr : Nat) : Prop :=
  sd.size ≤ addr ∨ sd.csdHas 0x30 = true ∨ sd.wpGroups.cell (wpGroup addr) = true

instance sdProtectedDecidable (sd : SDState) (addr : Nat) : Decidable (sd.Protected addr) :=
  inferInstanceAs (Decidable (_ ∨ _))

/-- No byte of the device is protected in a range. -/
def SDState.Free (sd : SDState) (start len : Nat) : Prop :=
  ∀ i < len, start + i < sd.bytes → ¬sd.Protected (start + i)

instance sdFreeDecidable (sd : SDState) (start len : Nat) : Decidable (sd.Free start len) :=
  inferInstanceAs (Decidable (∀ i < len, _ → _))

/-- The length of the next block that is written: its last byte is the next one or a later one. -/
def SDState.writeLen (sd : SDState) : Nat := max sd.blkLen (sd.dataOffset + 1)

/-- What is written next is not protected. -/
def SDState.NextFree (sd : SDState) : Prop := sd.Free sd.dataStart sd.writeLen

instance sdNextFreeDecidable (sd : SDState) : Decidable sd.NextFree :=
  inferInstanceAs (Decidable (sd.Free _ _))

/-- What a card that is locked is to execute: the commands of the basic class and of the lock class,
    CMD16, CMD55 and ACMD41. -/
def sdLockAllows (lastStatus : BitVec 32) (cmd : Nat) : Bool :=
  if lastStatus &&& APP_CMD ≠ 0 then cmd = 41
  else sdCmdClass[cmd]? = some 0 || (sdCmdClass[cmd]? = some 7 || (cmd = 16 || cmd = 55))

/-- `sd_do_command` comes to the command itself. -/
def SDState.executes (sd : SDState) (cmd : Nat) : Bool :=
  sd.present && sdLockRefuses sd.cardStatus cmd = some false

/-- An operation changes no protected byte. -/
def SdCard.Keeps (card : SdCard) (op : SdCardOp) : Prop :=
  ∀ card', card.exec op = some card' → ∀ addr, card.sd.Protected addr →
    card'.cell addr = card.cell addr

/-- A locked card does not execute what the lock forbids. -/
def SDState.KeepsLock (sd : SDState) (cmd : Nat) : Prop :=
  sd.has CARD_IS_LOCKED = true → sd.executes cmd = true → sdLockAllows sd.cardStatus cmd = true

/-- An operation keeps the write-protected bytes, and a command keeps the lock. -/
def SdCard.Protects (card : SdCard) (op : SdCardOp) : Prop :=
  match op with
  | .sendCommand cmdreg _ => card.Keeps op ∧ card.sd.KeepsLock (cmdreg >>> 8).toNat
  -- another medium has other bytes
  | .cardchange _ _ => True
  | _ => card.Keeps op

/-- The last byte of a block of CMD25. -/
def SDState.endsBlock (sd : SDState) : Bool :=
  sd.takesBlockData && (decide (sd.currentCmd = 25) && decide (sd.blkLen ≤ sd.dataOffset + 1))

/-- What the card does not see to.

* The check of CMD24 and CMD25 sets bits of the status that their own response clears, and a command
  that comes in the middle of a transfer replaces the current one.
* The check behind a block looks at the group of one address, of which it takes 32 bits.
* The filter of a locked card refuses what it is to let through, and the other way round. -/
def SdCard.Guarded (card : SdCard) : SdCardOp → Prop
  | .sendCommand cmdreg cmdarg =>
    let sd := card.sd
    let cmd := (cmdreg >>> 8).toNat
    (sd.present = true → sd.has CARD_IS_LOCKED = true → sdLockAllows sd.cardStatus cmd = true) ∧
    (cmd = 24 ∨ cmd = 25 → sd.executes cmd = true →
      (sd.state = .transfer → sd.spi = false → sd.Free (sdAddr sd cmdarg) (max sd.blkLen 1)) ∧
      (sd.state = .receivingdata → sd.NextFree))
  | .writeData _ _ _ _ _ =>
    let sd := card.sd
    let next := sd.dataStart + sd.blkLen
    sd.endsBlock = true → next + sd.blkLen ≤ sd.size →
      sd.wpGroups.cell (wpGroup (next % 2 ^ 32)) = false → sd.Free next (max sd.blkLen 1)
  | _ => True

instance sdGuardedDecidable (card : SdCard) : ∀ op, Decidable (card.Guarded op)
  | .sendCommand _ _ => inferInstanceAs (Decidable (_ ∧ _))
  | .writeData _ _ _ _ _ => inferInstanceAs (Decidable (_ → _))
  | .readData _ | .enable _ | .cardchange _ _ => inferInstanceAs (Decidable True)

/-! ### Which bytes of the device a block changes -/

section

variable {bs : BlockDriverState} {call : BdrvCall} {fault : BdrvFault} {sector : Nat} {m m' : SdBlk}
  {host : SdHost} {faults : SdFaults} {addr len k : Nat}

theorem write_keeps (h : k / 512 = sector → ¬BdrvAccepts bs call sector) :
    (m.write bs call fault sector).2.cell k = m.cell k := by
  by_cases hk : k / 512 = sector
  · rw [write_of_not_accepts bs call fault sector m (h hk)]
  · exact write_other bs call fault sector m hk

theorem blkWriteOne_keeps
    (hfirst : ∀ bs ∈ host.bdrv, k / 512 = addr / 512 → ¬BdrvAccepts bs host.write1 (addr / 512))
    (h : SdBlk.blkWriteOne host faults m addr len = some m') : m'.cell k = m.cell k := by
  obtain ⟨buf, -, h⟩ := Option.bind_eq_some_iff.mp h
  cases hbdrv : host.bdrv with
  | none =>
    rw [hbdrv] at h
    obtain rfl := Option.some.inj h
    rfl
  | some bs =>
    rw [hbdrv] at h
    obtain rfl := Option.some.inj h
    exact write_keeps (hfirst bs hbdrv)

theorem blkWriteTwo_keeps
    (hfirst : ∀ bs ∈ host.bdrv, k / 512 = addr / 512 → ¬BdrvAccepts bs host.write1 (addr / 512))
    (hsecond : ∀ bs ∈ host.bdrv, k / 512 = (addr + len) / 512 →
      ¬BdrvAccepts bs host.write2 ((addr + len) / 512))
    (h : SdBlk.blkWriteTwo host faults m addr len = some m') : m'.cell k = m.cell k := by
  obtain ⟨buf, -, h⟩ := Option.bind_eq_some_iff.mp h
  obtain ⟨bs, hbs, h⟩ := Option.bind_eq_some_iff.mp h
  have hone : ({ m with buf := buf }.write bs host.write1 faults.write1 (addr / 512)).2.cell k =
      m.cell k := write_keeps (hfirst bs hbs)
  rw [← hone]
  dsimp only at h
  split_ifs at h
  · obtain rfl := Option.some.inj h
    rfl
  · obtain rfl := Option.some.inj h
    rfl
  · obtain ⟨buf', -, h⟩ := Option.bind_eq_some_iff.mp h
    obtain rfl := Option.some.inj h
    exact write_keeps (hsecond bs hbs)

theorem blkWriteSectors_keeps
    (hfirst : ∀ bs ∈ host.bdrv, k / 512 = addr / 512 → ¬BdrvAccepts bs host.write1 (addr / 512))
    (hsecond : ∀ bs ∈ host.bdrv, addr / 512 * 512 + 512 < addr + len →
      k / 512 = (addr + len) / 512 → ¬BdrvAccepts bs host.write2 ((addr + len) / 512))
    (h : SdBlk.blkWriteSectors host faults m addr len = some m') : m'.cell k = m.cell k := by
  rw [SdBlk.blkWriteSectors] at h
  by_cases htwo : addr / 512 * 512 + 512 < addr + len
  · rw [if_pos htwo] at h
    exact blkWriteTwo_keeps hfirst (fun bs hbs => hsecond bs hbs htwo) h
  · rw [if_neg htwo] at h
    exact blkWriteOne_keeps hfirst h

/-- **A block that is written** changes no other sectors than those that it lies in, and of these
    only what the block layer accepts. -/
theorem blkWrite_keeps
    (hfirst : ∀ bs ∈ host.bdrv, k / 512 = addr / 512 → ¬BdrvAccepts bs host.write1 (addr / 512))
    (hsecond : ∀ bs ∈ host.bdrv, addr / 512 * 512 + 512 < addr + len →
      k / 512 = (addr + len) / 512 → ¬BdrvAccepts bs host.write2 ((addr + len) / 512))
    (h : SdBlk.blkWrite host faults m addr len = some m') : m'.cell k = m.cell k := by
  rw [SdBlk.blkWrite] at h
  split_ifs at h
  · cases hbdrv : host.bdrv with
    | none =>
      rw [hbdrv] at h
      obtain rfl := Option.some.inj h
      rfl
    | some bs =>
      rw [hbdrv] at h
      dsimp only at h
      split_ifs at h
      · obtain rfl := Option.some.inj h
        rfl
      · exact (blkWriteSectors_keeps hfirst hsecond h).trans rfl
  · exact blkWriteSectors_keeps hfirst hsecond h

end

/-- What the block layer accepts is inside of the device. -/
theorem SDState.host_accepts {sd : SDState} {rets : SdRets} {bs : BlockDriverState}
    (hbs : bs ∈ (sd.host rets).bdrv) {ret : Int} {sector : Nat}
    (h : BdrvAccepts bs (sd.bdrvCall ret) sector) : sector * 512 + 512 ≤ sd.bytes := by
  obtain ⟨b, hb, rfl⟩ := Option.map_eq_some_iff.mp hbs
  have hcheck := h.2.2
  simp only [bdrvCheckRequest, bdrvCheckByteRequest, SDState.bdrvCall, ENOMEDIUM, EIO] at hcheck
  split_ifs at hcheck with hins hgrow hneg hlong
  all_goals first | omega | contradiction

/-! ### One operation -/

/-- The invariant: the card is as long as its device, and where the next block goes, nothing is
    protected. -/
structure SDState.Armed (sd : SDState) : Prop where
  sized : sd.Sized
  free : sd.awaitsBlockData = true → sd.NextFree

section

variable {sd : SDState}

theorem SDState.Protected.sector (hsized : sd.bytes ≤ sd.size) {k a : Nat} (hk : k < sd.bytes)
    (hsame : k / 512 = a / 512) (h : sd.Protected k) : sd.Protected a := by
  obtain hsize | hcsd | hgroup := h
  · omega
  · exact .inr (.inl hcsd)
  · refine .inr (.inr ?_)
    rw [wpGroup_eq] at hgroup ⊢
    rwa [show a / 2097152 = k / 2097152 by omega]

/-- A block without protected bytes does not change any. -/
theorem SDState.Free.blkWrite_keeps (hsized : sd.bytes ≤ sd.size) {addr len : Nat}
    (h : sd.Free addr len) (hpos : 0 < len) (hlen : len ≤ 512) {rets : SdRets} {faults : SdFaults}
    {m m' : SdBlk} (hwrite : SdBlk.blkWrite (sd.host rets) faults m addr len = some m') {k : Nat}
    (hk : sd.Protected k) : m'.cell k = m.cell k := by
  refine Hw.blkWrite_keeps (fun bs hbs hsame haccepts => ?_)
    (fun bs hbs htwo hsame haccepts => ?_) hwrite
  -- the first byte of the block is in the same sector
  · have hdevice := SDState.host_accepts hbs haccepts
    exact h 0 hpos (by omega) (hk.sector hsized (by omega) hsame)
  -- the block goes on into the next sector
  · have hdevice := SDState.host_accepts hbs haccepts
    obtain ⟨hnext, -, -⟩ := block_end hlen htwo
    refine h ((addr + len) / 512 * 512 - addr) (by omega) (by omega) ?_
    exact hk.sector hsized (by omega) (by omega)

/-- The block that a byte completes changes no protected byte. -/
theorem SdCard.writeData_keeps {card : SdCard} (h : card.sd.Armed) {value : Byte}
    {answers : BdrvAnswers} {buf : CArray Byte 512} {rets : SdRets} {faults : SdFaults}
    {cell : Nat → Byte}
    (hcell : card.cellAfter (.writeData value answers buf rets faults) = some cell) {addr : Nat}
    (haddr : card.sd.Protected addr) : cell addr = card.cell addr := by
  rw [SdCard.cellAfter] at hcell
  split_ifs at hcell with htakes
  · obtain ⟨sd, hstore, hcell⟩ := Option.bind_eq_some_iff.mp hcell
    obtain ⟨data, hdata, rfl⟩ := Option.map_eq_some_iff.mp hstore
    have hoffset : card.sd.dataOffset < 512 := by
      by_contra hge
      rw [CArray.store, if_neg hge] at hdata
      cases hdata
    dsimp only at hcell
    split_ifs at hcell with hend
    · obtain ⟨m', hwrite, rfl⟩ := Option.map_eq_some_iff.mp hcell
      rw [SDState.takesBlockData, Bool.and_eq_true] at htakes
      have hfree := h.free htakes.2
      rw [SDState.NextFree, SDState.writeLen, Nat.max_eq_right hend] at hfree
      exact hfree.blkWrite_keeps h.sized (Nat.succ_pos _) hoffset hwrite haddr
    · obtain rfl := Option.some.inj hcell
      rfl
  · obtain rfl := Option.some.inj hcell
    rfl

/-! ### The next block -/

/-- Cards that protect the same bytes and write blocks of the same length. -/
structure SDState.Alike (sd' sd : SDState) : Prop where
  bytes : sd'.bytes = sd.bytes
  size : sd'.size = sd.size
  csd : sd'.csdHas 0x30 = sd.csdHas 0x30
  wpGroups : sd'.wpGroups.cell = sd.wpGroups.cell
  blkLen : sd'.blkLen = sd.blkLen

theorem SDState.Alike.free {sd' : SDState} (h : sd'.Alike sd) {start len : Nat}
    (hfree : sd.Free start len) : sd'.Free start len := by
  intro i hi hbytes hprotected
  rw [h.bytes] at hbytes
  refine hfree i hi hbytes ?_
  obtain hsize | hcsd | hgroup := hprotected
  · exact .inl (h.size ▸ hsize)
  · exact .inr (.inl (h.csd.symm.trans hcsd))
  · exact .inr (.inr ((congrFun h.wpGroups _).symm.trans hgroup))

/-- A card that receives data has nothing protected next. -/
def SDState.Ready (sd : SDState) : Prop := sd.state = .receivingdata → sd.NextFree

theorem SDState.Ready.raise (h : sd.Ready) {c : Prop} [Decidable c] (bits : BitVec 32) :
    SDState.Ready (if c then sd.raise bits else sd) := by
  split_ifs <;> exact h

/-- A block write is ready for a free block. -/
theorem sdWriteBlock_ready {addr : Nat}
    (htransfer : sd.state = .transfer → sd.spi = false → sd.Free addr (max sd.blkLen 1))
    (hreceiving : sd.state = .receivingdata → sd.NextFree) :
    SdAfter SDState.Ready Prod.fst (sdWriteBlock sd addr) := by
  have hillegal : SdAfter SDState.Ready Prod.fst (sdIllegal sd) := .returned hreceiving
  rw [sdWriteBlock, SDState.notSpi, SDState.inState]
  by_cases hspi : sd.spi = true
  · rw [if_pos hspi]
    exact hillegal
  rw [if_neg hspi]
  by_cases hstate : sd.state = .transfer
  · have hstart : ({ (sd.startData .receivingdata addr) with blkWritten := 0 } : SDState).Ready :=
      fun _ => htransfer hstate (Bool.eq_false_iff.mpr hspi)
    rw [if_pos hstate]
    -- the checks change nothing but the status
    exact .map fun wp _ => ((hstart.raise _).raise _).raise _
  · rw [if_neg hstate]
    exact hillegal

theorem awaitsBlockData_iff : sd.awaitsBlockData = true ↔
    sd.state = .receivingdata ∧ sd.has (ADDRESS_ERROR ||| WP_VIOLATION) = false ∧
      (sd.currentCmd = 24 ∨ sd.currentCmd = 25) := by
  simp [SDState.awaitsBlockData]

/-- Two bits of the status. -/
theorem has_errors_iff : sd.has (ADDRESS_ERROR ||| WP_VIOLATION) = false ↔
    sd.cardStatus.getLsbD 30 = false ∧ sd.cardStatus.getLsbD 26 = false := by
  rw [SDState.has, decide_eq_false_iff_not, not_not]
  constructor
  · intro h
    have hbit (i : Nat) :
        (sd.cardStatus &&& (ADDRESS_ERROR ||| WP_VIOLATION)).getLsbD i = false := by
      rw [h]
      exact BitVec.getLsbD_zero
    have h30 := hbit 30
    have h26 := hbit 26
    rw [BitVec.getLsbD_and] at h30 h26
    exact ⟨(Bool.and_true _).symm.trans h30, (Bool.and_true _).symm.trans h26⟩
  · rintro ⟨h30, h26⟩
    apply BitVec.eq_of_getLsbD_eq
    intro i hi
    rw [BitVec.getLsbD_and]
    interval_cases i <;> simp_all [ADDRESS_ERROR, WP_VIOLATION]

/-- What a card does in front of a command. -/
def SDState.entered (sd : SDState) : SDState :=
  sdSetStatus { sd with cardStatus := sd.cardStatus &&& ~~~CARD_STATUS_B }

theorem awaitsBlockData_of_refused
    (h : (sd.entered.raise ILLEGAL_COMMAND).awaitsBlockData = true) :
    sd.awaitsBlockData = true := by
  obtain ⟨hstate, hhas, hcmd⟩ := awaitsBlockData_iff.mp h
  refine awaitsBlockData_iff.mpr ⟨hstate, has_errors_iff.mpr ?_, hcmd⟩
  obtain ⟨h30, h26⟩ := has_errors_iff.mp hhas
  simp only [SDState.entered, sdSetStatus, SDState.raise, BitVec.getLsbD_or, BitVec.getLsbD_and,
    Bool.or_eq_false_iff] at h30 h26
  have hkept (i : Nat) (hi : (~~~CARD_STATUS_B).getLsbD i = true)
      (hi' : (~~~CURRENT_STATE).getLsbD i = true) {x : Bool}
      (hx : (x && (~~~CARD_STATUS_B).getLsbD i && (~~~CURRENT_STATE).getLsbD i) = false) :
      x = false := by
    rwa [hi, hi', Bool.and_true, Bool.and_true] at hx
  exact ⟨hkept 30 rfl rfl h30.1.1, hkept 26 rfl rfl h26.1.1⟩

theorem sdResponse_eq (sd : SDState) (lastStatus : BitVec 32) (rsp : SdRspType) :
    (sdResponse sd lastStatus rsp).1 =
      { sd with cardStatus := (sdResponse sd lastStatus rsp).1.cardStatus } := by
  cases rsp <;> rfl

theorem sdNormalCommand_ready {cmd : Nat} {arg : BitVec 32} (hcmd : cmd = 24 ∨ cmd = 25)
    (htransfer : sd.state = .transfer → sd.spi = false →
      sd.Free (sdAddr sd arg) (max sd.blkLen 1))
    (hreceiving : sd.state = .receivingdata → sd.NextFree) :
    SdAfter SDState.Ready Prod.fst (sdNormalCommand sd cmd arg) := by
  obtain rfl | rfl := hcmd
  · exact sdWriteBlock_ready htransfer hreceiving
  · exact sdWriteBlock_ready htransfer hreceiving

/-- Write commands behind `APP_CMD` are ready as the plain ones are. -/
theorem sdAppCommand_ready {cmd : Nat} {arg : BitVec 32} (hcmd : cmd = 24 ∨ cmd = 25)
    (htransfer : sd.state = .transfer → sd.spi = false →
      sd.Free (sdAddr sd arg) (max sd.blkLen 1))
    (hreceiving : sd.state = .receivingdata → sd.NextFree) :
    SdAfter SDState.Ready Prod.fst (sdAppCommand sd cmd arg) := by
  have hnormal : SdAfter SDState.Ready Prod.fst (sdNormalCommand
      { sd with cardStatus := sd.cardStatus &&& ~~~APP_CMD } cmd arg) :=
    sdNormalCommand_ready hcmd htransfer hreceiving
  obtain rfl | rfl := hcmd
  · exact hnormal
  · exact hnormal

/-- A card that waits for the data of a block has nothing protected next. -/
def SDState.Arms (sd : SDState) : Prop := sd.awaitsBlockData = true → sd.NextFree

/-- A request arms the card for free blocks only. -/
theorem sdDoCommand_arms (h : sd.Arms) {cmd : Nat} {arg : BitVec 32}
    (hguard : cmd = 24 ∨ cmd = 25 → sd.executes cmd = true →
      (sd.state = .transfer → sd.spi = false → sd.Free (sdAddr sd arg) (max sd.blkLen 1)) ∧
      (sd.state = .receivingdata → sd.NextFree)) :
    SdAfter SDState.Arms Prod.fst (sdDoCommand sd cmd arg) := by
  rw [sdDoCommand]
  by_cases hpresent : (!sd.present) = true
  · rw [if_pos hpresent]
    exact .returned h
  rw [if_neg hpresent]
  refine .bind fun refuses hrefuses => ?_
  cases refuses with
  | true => exact .returned fun htakes => h (awaitsBlockData_of_refused htakes)
  | false =>
    have hexecutes : sd.executes cmd = true := by
      simp only [SDState.executes, hrefuses]
      simpa using hpresent
    rw [if_neg Bool.false_ne_true]
    -- only CMD24 and CMD25 make a card take the data of a block
    have hanswer : ∀ r : SdResult, (cmd = 24 ∨ cmd = 25 → r.1.Ready) →
        (sdResponse { r.1 with currentCmd := cmd } sd.cardStatus r.2).1.Arms := by
      intro r hr htakes
      rw [sdResponse_eq] at htakes ⊢
      obtain ⟨hstate, -, hcmd⟩ := awaitsBlockData_iff.mp htakes
      exact hr hcmd hstate
    refine .map fun r hr => hanswer r fun hcmd => ?_
    obtain ⟨htransfer, hreceiving⟩ := hguard hcmd hexecutes
    have hafter : SdAfter SDState.Ready Prod.fst
        (if sd.cardStatus &&& APP_CMD ≠ 0 then
          (sdAppCommand sd.entered cmd arg).map fun r =>
            ({ r.1 with cardStatus := r.1.cardStatus &&& ~~~APP_CMD }, r.2)
        else sdNormalCommand sd.entered cmd arg) := by
      have happ : SdAfter SDState.Ready Prod.fst (sdAppCommand sd.entered cmd arg) :=
        sdAppCommand_ready hcmd htransfer hreceiving
      have hnormal : SdAfter SDState.Ready Prod.fst (sdNormalCommand sd.entered cmd arg) :=
        sdNormalCommand_ready hcmd htransfer hreceiving
      exact .ite (.map happ) hnormal
    exact hafter r hr

theorem sdReadData_arms (h : sd.Arms) (answers : BdrvAnswers) :
    SdAfter SDState.Arms Prod.fst (sdReadData sd answers) := by
  by_cases hstate : sd.state = .sendingdata
  · intro r hr htakes
    obtain ⟨hreceiving, -, -⟩ := awaitsBlockData_iff.mp htakes
    have hread := (sdReadData_readFrom answers r hr).state
    rw [hreceiving, hstate] at hread
    obtain hread | hread := hread <;> cases hread
  · rw [sdReadData_other hstate]
    exact .returned h

theorem endTransfer_arms {limit : Nat} (h : ¬limit ≤ sd.dataOffset → sd.Arms)
    (next : SDState → Option SDState) : SdAfter SDState.Arms id (sd.endTransfer limit next) := by
  rw [SDState.endTransfer]
  by_cases hend : limit ≤ sd.dataOffset
  · rw [if_pos hend]
    refine .map fun sd' _ htakes => ?_
    obtain ⟨hstate, -, -⟩ := awaitsBlockData_iff.mp htakes
    cases hstate
  · rw [if_neg hend]
    exact .returned (h hend)

theorem csdHas_setCsd14 (sd : SDState) :
    (sd.setCsd14 (sd.csd.cell 14 ||| 0x40)).csdHas 0x30 = sd.csdHas 0x30 := by
  have hbits : ∀ x : Byte, (x ||| 0x40) &&& 0x30 = x &&& 0x30 := by
    intro x
    rw [BitVec.and_comm, BitVec.and_or_distrib_left, BitVec.and_comm]
    exact BitVec.or_zero
  exact congrArg (fun x : Byte => decide (x ≠ 0)) (hbits _)

theorem sdWpAddr_some {addr : Nat} {wp : Bool} (h : sdWpAddr sd addr = some wp) :
    sd.wpGroups.cell (wpGroup (addr % 2 ^ 32)) = wp := by
  rw [sdWpAddr, CArray.load] at h
  split_ifs at h
  exact Option.some.inj h

theorem sdWriteMultiple_arms
    (hnext : sd.dataStart + sd.blkLen + sd.blkLen ≤ sd.size →
      sd.wpGroups.cell (wpGroup ((sd.dataStart + sd.blkLen) % 2 ^ 32)) = false →
        sd.Free (sd.dataStart + sd.blkLen) (max sd.blkLen 1)) (answers : BdrvAnswers) :
    SdAfter SDState.Arms id (sdWriteMultiple sd answers) := by
  refine .bind fun sd' hsd' => ?_
  have hbuf : SdAfter (fun sd' => ∃ buf, sd' = { sd with state := .programming, buf := buf }) id
      (sdBlkWrite { sd with state := .programming } sd.dataStart sd.dataOffset answers) :=
    sdBlkWrite_after (fun buf => ⟨buf, rfl⟩) _ _ _
  obtain ⟨buf, rfl⟩ := hbuf sd' hsd'
  -- a card that stops here is left in the programming state
  have hstopped : ∀ sd' : SDState, sd'.state = .programming → sd'.Arms := by
    intro sd' hstate htakes
    obtain ⟨hreceiving, -, -⟩ := awaitsBlockData_iff.mp htakes
    rw [hstate] at hreceiving
    cases hreceiving
  dsimp only
  by_cases hend : sd.size < sd.dataStart + sd.blkLen + sd.blkLen
  · rw [if_pos hend]
    exact .returned (hstopped _ rfl)
  rw [if_neg hend]
  refine .map fun wp hwp => ?_
  cases wp with
  | true => exact hstopped _ rfl
  | false =>
    have hfree := hnext (Nat.le_of_not_lt hend) (sdWpAddr_some hwp)
    have halike : SDState.Alike (sd.setCsd14 (sd.csd.cell 14 ||| 0x40)) sd :=
      ⟨rfl, rfl, csdHas_setCsd14 sd, rfl, rfl⟩
    exact fun _ => halike.free hfree

theorem SDState.NextFree.stored (h : sd.NextFree) (hend : ¬sd.blkLen ≤ sd.dataOffset + 1)
    (data : CArray Byte 512) :
    ({ sd with data := data, dataOffset := sd.dataOffset + 1 } : SDState).NextFree := by
  have hlen : max sd.blkLen (sd.dataOffset + 1 + 1) = max sd.blkLen (sd.dataOffset + 1) := by omega
  show sd.Free sd.dataStart (max sd.blkLen (sd.dataOffset + 1 + 1))
  rw [hlen]
  exact h

/-- A byte written arms the next block only if it is free. -/
theorem sdWriteData_arms (h : sd.Arms)
    (hnext : sd.endsBlock = true → sd.dataStart + sd.blkLen + sd.blkLen ≤ sd.size →
      sd.wpGroups.cell (wpGroup ((sd.dataStart + sd.blkLen) % 2 ^ 32)) = false →
        sd.Free (sd.dataStart + sd.blkLen) (max sd.blkLen 1)) (value : Byte)
    (answers : BdrvAnswers) : SdAfter SDState.Arms id (sdWriteData sd value answers) := by
  rw [sdWriteData]
  by_cases hpresent : (!sd.present) = true
  · rw [if_pos hpresent]
    exact .returned h
  rw [if_neg hpresent]
  by_cases hstate : sd.state ≠ .receivingdata
  · rw [if_pos hstate]
    exact .returned h
  rw [if_neg hstate]
  by_cases hhas : sd.has (ADDRESS_ERROR ||| WP_VIOLATION) = true
  · rw [if_pos hhas]
    exact .returned h
  rw [if_neg hhas]
  have htakes : sd.currentCmd = 24 ∨ sd.currentCmd = 25 → sd.awaitsBlockData = true := fun hcmd =>
    awaitsBlockData_iff.mpr ⟨not_not.mp hstate, Bool.eq_false_iff.mpr hhas, hcmd⟩
  -- another command takes its data, and no block
  have hother : ∀ c : Nat, sd.currentCmd = c → c ≠ 24 → c ≠ 25 → ∀ data,
      SDState.Arms { sd with data := data, dataOffset := sd.dataOffset + 1 } := by
    rintro c hc h24 h25 data htakes'
    obtain ⟨-, -, hcmd⟩ := awaitsBlockData_iff.mp htakes'
    obtain hcmd | hcmd := hcmd
    · exact absurd (hc.symm.trans hcmd) h24
    · exact absurd (hc.symm.trans hcmd) h25
  split
  case h_1 hcmd =>
    refine .bind fun sd' hsd' => ?_
    obtain ⟨data, -, rfl⟩ := Option.map_eq_some_iff.mp hsd'
    exact endTransfer_arms (fun hend _ => (h (htakes (.inl hcmd))).stored hend data) _
  case h_2 hcmd =>
    refine .bind fun sd' hsd' => ?_
    obtain ⟨data, -, rfl⟩ := Option.map_eq_some_iff.mp hsd'
    dsimp only
    by_cases hend : sd.blkLen ≤ sd.dataOffset + 1
    · rw [if_pos hend]
      have hends : sd.endsBlock = true := by
        have hthere : sd.present = true := by simpa using hpresent
        rw [SDState.endsBlock, SDState.takesBlockData, hthere, htakes (.inr hcmd), hcmd,
          decide_eq_true hend]
        rfl
      refine sdWriteMultiple_arms ?_ answers
      exact hnext hends
    · rw [if_neg hend]
      exact .returned fun _ => (h (htakes (.inr hcmd))).stored hend data
  case h_7 => exact .returned h
  all_goals
    rename_i hcmd
    refine .bind fun sd' hsd' => ?_
    obtain ⟨data, -, rfl⟩ := Option.map_eq_some_iff.mp hsd'
    exact endTransfer_arms (fun _ => hother _ hcmd (by decide) (by decide) data) _

/-- A new medium is armed for nothing. -/
theorem sdCardchange_armed (h : sd.Armed) (bdrv : SdBdrv) : (sdCardchange sd bdrv).Armed := by
  rw [sdCardchange]
  split_ifs with hdevice hinserted
  · exact h
  · refine ⟨sdReset_sized sd _, fun hawaits => ?_⟩
    obtain ⟨hstate, -, -⟩ := awaitsBlockData_iff.mp hawaits
    cases hstate
  -- a card without a medium has no bytes
  · have hbytes : SDState.bytes { sd with bdrv := some bdrv } = 0 := if_neg hinserted
    refine ⟨hbytes.le.trans (Nat.zero_le _), fun _ i _ hi => ?_⟩
    rw [hbytes] at hi
    exact absurd hi (Nat.not_lt_zero _)

/-- **One operation** keeps the invariant. -/
theorem SdCardOp.next_armed (h : sd.Armed) {cell : Nat → Byte} {op : SdCardOp}
    (hguard : SdCard.Guarded ⟨sd, cell⟩ op) {sd' : SDState} (hnext : op.next sd = some sd') :
    sd'.Armed := by
  cases op with
  | sendCommand cmdreg cmdarg =>
    refine ⟨SdAction.exec_sized h.sized (.sendCommand cmdreg cmdarg) sd' hnext, ?_⟩
    obtain ⟨r, hr, rfl⟩ := Option.map_eq_some_iff.mp hnext
    exact sdDoCommand_arms h.free hguard.2 r hr
  | readData answers =>
    refine ⟨SdAction.exec_sized h.sized (.readData answers) sd' hnext, ?_⟩
    obtain ⟨r, hr, rfl⟩ := Option.map_eq_some_iff.mp hnext
    exact sdReadData_arms h.free answers r hr
  | writeData value answers buf rets faults =>
    refine ⟨SdAction.exec_sized h.sized (.writeData value answers) sd' hnext, ?_⟩
    exact sdWriteData_arms h.free hguard value answers sd' hnext
  | enable on =>
    obtain rfl := Option.some.inj hnext
    exact ⟨h.sized, h.free⟩
  | cardchange bdrv cell =>
    obtain rfl := Option.some.inj hnext
    exact sdCardchange_armed h bdrv

/-- **One operation** of a guest that sees to what the card does not. -/
theorem SdCard.exec_protects {card : SdCard} (h : card.sd.Armed) {op : SdCardOp}
    (hguard : card.Guarded op) : card.Protects op := by
  have hsame (hcell : card.cellAfter op = some card.cell) : card.Keeps op := by
    intro card' hexec addr _
    obtain ⟨sd', -, hafter⟩ := Option.bind_eq_some_iff.mp hexec
    rw [hcell] at hafter
    obtain rfl := Option.some.inj hafter
    rfl
  cases op with
  | sendCommand cmdreg cmdarg =>
    refine ⟨hsame rfl, fun hlocked hexecutes => ?_⟩
    rw [SDState.executes, Bool.and_eq_true] at hexecutes
    exact hguard.1 hexecutes.1 hlocked
  | readData answers => exact hsame rfl
  | writeData value answers buf rets faults =>
    intro card' hexec addr haddr
    obtain ⟨sd', -, hafter⟩ := Option.bind_eq_some_iff.mp hexec
    obtain ⟨cell, hcell, rfl⟩ := Option.map_eq_some_iff.mp hafter
    exact SdCard.writeData_keeps h hcell haddr
  | enable on => exact hsame rfl
  | cardchange bdrv cell => exact trivial

theorem sdInit_armed (bdrv : Option SdBdrv) (spi : Bool) : (sdInit bdrv spi).Armed := by
  refine ⟨sdReset_sized _ bdrv, fun hawaits => ?_⟩
  obtain ⟨hstate, -, -⟩ := awaitsBlockData_iff.mp hawaits
  cases hstate

/-! ### Runs -/

theorem SdCard.exec_armed {card card' : SdCard} (h : card.sd.Armed) {op : SdCardOp}
    (hguard : card.Guarded op) (hexec : card.exec op = some card') : card'.sd.Armed := by
  obtain ⟨sd', hnext, hcell⟩ := Option.bind_eq_some_iff.mp hexec
  obtain ⟨cell, -, rfl⟩ := Option.map_eq_some_iff.mp hcell
  exact SdCardOp.next_armed h hguard hnext

/-- **Protection.**  In a run whose guest sees to what the card does not, no operation changes a
    protected byte, and a locked card executes no other commands than those it is to execute. -/
theorem sd_protects (bdrv : Option SdBdrv) (spi : Bool) (cell : Nat → Byte) (ops : List SdCardOp)
    (h : StepsMeet SdCard.exec SdCard.Guarded ⟨sdInit bdrv spi, cell⟩ ops) :
    StepsMeet SdCard.exec SdCard.Protects ⟨sdInit bdrv spi, cell⟩ ops :=
  StepsMeet.of_preserved (I := fun card => card.sd.Armed)
    (fun _ _ harmed hguard => ⟨SdCard.exec_protects harmed hguard,
      fun _ hexec => SdCard.exec_armed harmed hguard hexec⟩) (sdInit_armed bdrv spi) h

end

/-- From the reset to the transfer state, then CMD28 for the first group and blocks of one byte. -/
def sdProtectFirst : List SdCardOp :=
  [.sendCommand 0x3700 0, .sendCommand 0x2900 1, .sendCommand 0x0200 0, .sendCommand 0x0300 0,
    .sendCommand 0x0700 0x45670000, .sendCommand 0x1c00 0, .sendCommand 0x1000 1]

/-- A byte, with a block layer that answers. -/
def sdPlainByte (value : Byte) : SdCardOp :=
  let fault : BdrvFault := ⟨.const 512 0, fun _ => true⟩
  .writeData value ⟨some (.const 512 0), true, some (.const 512 0)⟩ (.const 512 0) ⟨0, 0, 0, 0⟩
    ⟨fault, fault, fault, fault⟩

/-- CMD25 writes two bytes of the second group. -/
theorem sd_protects_second :
    StepsMeet SdCard.exec SdCard.Guarded ⟨sdInit (some ⟨8192, false, true⟩) false, fun _ => 0⟩
        (sdProtectFirst ++ [.sendCommand 0x1900 0x200000, sdPlainByte 0x55, sdPlainByte 0x56]) ∧
      StepsMeet SdCard.exec SdCard.Protects ⟨sdInit (some ⟨8192, false, true⟩) false, fun _ => 0⟩
        (sdProtectFirst ++ [.sendCommand 0x1900 0x200000, sdPlainByte 0x55, sdPlainByte 0x56]) :=
  have hguard : StepsMeet SdCard.exec SdCard.Guarded
      ⟨sdInit (some ⟨8192, false, true⟩) false, fun _ => 0⟩
      (sdProtectFirst ++ [.sendCommand 0x1900 0x200000, sdPlainByte 0x55, sdPlainByte 0x56]) := by
    decide +kernel
  ⟨hguard, sd_protects _ _ _ _ hguard⟩

/-- CMD24 writes a byte of the first group: the answer to it clears the error. -/
theorem sd_protects_fails :
    ¬∀ (bdrv : Option SdBdrv) (spi : Bool) (cell : Nat → Byte) (ops : List SdCardOp),
      StepsMeet SdCard.exec SdCard.Protects ⟨sdInit bdrv spi, cell⟩ ops := by
  intro h
  let start : SdCard := ⟨sdInit (some ⟨2048, false, true⟩) false, fun _ => 0⟩
  let ops := sdProtectFirst ++ [.sendCommand 0x1800 0]
  obtain ⟨-, hlast⟩ := StepsMeet.of_append (h _ _ _ (ops ++ [sdPlainByte 0x55]) :
    StepsMeet SdCard.exec SdCard.Protects start _)
  -- the card in front of the byte, and behind it
  have hrun : ((runFrom SdCard.exec start ops).bind fun card =>
      (card.exec (sdPlainByte 0x55)).map fun card' =>
        decide (card.sd.Protected 0 ∧ card'.cell 0 ≠ card.cell 0)) = some true := by
    decide +kernel
  obtain ⟨card, hcard, hrun⟩ := Option.bind_eq_some_iff.mp hrun
  obtain ⟨card', hcard', hchanged⟩ := Option.map_eq_some_iff.mp hrun
  obtain ⟨hprotected, hchanged⟩ := of_decide_eq_true hchanged
  obtain ⟨hkeeps, -⟩ := hlast card hcard
  exact hchanged (hkeeps card' hcard' 0 hprotected)

end Qemu.Hw
