import Qemu.Lib.CArray
import Qemu.Lib.Runs
import Qemu.Lib.Stream

namespace Qemu.Hw

open Lib

/-!
# The SD card (`hw/sd.c`)

* `SDState` — the card; the write protection map has one element for each group of its size.
* `sdNormalCommand`, `sdAppCommand`, `sdDoCommand` — the commands.
* `sdReadData`, `sdWriteData` — a byte of the transfer that the last command has started.
* `SdAction.exec` — what the controller does with a card (`hw/s5pc1xx_mmc.c`).

`none` is an access to an array behind its end.  What the block layer answers is a part of the
action: any contents of a sector, or an error.
-/

def ADDRESS_ERROR : BitVec 32 := 1 <<< 30
def BLOCK_LEN_ERROR : BitVec 32 := 1 <<< 29
def ERASE_SEQ_ERROR : BitVec 32 := 1 <<< 28
def WP_VIOLATION : BitVec 32 := 1 <<< 26
def CARD_IS_LOCKED : BitVec 32 := 1 <<< 25
def LOCK_UNLOCK_FAILED : BitVec 32 := 1 <<< 24
def ILLEGAL_COMMAND : BitVec 32 := 1 <<< 22
def CID_CSD_OVERWRITE : BitVec 32 := 1 <<< 16
def WP_ERASE_SKIP : BitVec 32 := 1 <<< 15
def CURRENT_STATE : BitVec 32 := 7 <<< 9
def APP_CMD : BitVec 32 := 1 <<< 5

def CARD_STATUS_B : BitVec 32 := 0x00c01e00
def CARD_STATUS_C : BitVec 32 := 0xfd39a028

def HWBLOCK_SHIFT : Nat := 9
def SECTOR_SHIFT : Nat := 5
def WPGROUP_SHIFT : Nat := 7
def CMULT_SHIFT : Nat := 9

/-- The group of an address. -/
def wpGroup (addr : Nat) : Nat := addr >>> (HWBLOCK_SHIFT + SECTOR_SHIFT + WPGROUP_SHIFT)

/-- `sd_rsp_type_t` -/
inductive SdRspType
  | r0
  | r1
  | r2i
  | r2s
  | r3
  | r6
  | r7
  | r1b
deriving DecidableEq

/-- `SDState.mode` -/
inductive SdMode
  | inactive
  | cardIdentification
  | dataTransfer
deriving DecidableEq

/-- `SDState.state` -/
inductive SdCardState
  | inactive
  | idle
  | ready
  | identification
  | standby
  | transfer
  | sendingdata
  | receivingdata
  | programming
  | disconnect
deriving DecidableEq

/-- The number of a state. -/
def SdCardState.code : SdCardState → BitVec 32
  | .inactive => -1
  | .idle => 0
  | .ready => 1
  | .identification => 2
  | .standby => 3
  | .transfer => 4
  | .sendingdata => 5
  | .receivingdata => 6
  | .programming => 7
  | .disconnect => 8

/-- `sd_cmd_type_t` -/
inductive SdCmdType
  | none
  | bc
  | bcr
  | ac
  | adtc
deriving DecidableEq

/-- `sd_cmd_type` -/
def sdCmdType : List SdCmdType :=
  [.bc, .none, .bcr, .bcr, .none, .none, .none, .ac,
   .bcr, .ac, .ac, .adtc, .ac, .ac, .none, .ac,
   .ac, .adtc, .adtc, .none, .none, .none, .none, .none,
   .adtc, .adtc, .adtc, .adtc, .ac, .ac, .adtc, .none,
   .ac, .ac, .none, .none, .none, .none, .ac, .none,
   .none, .none, .bc, .none, .none, .none, .none, .none,
   .none, .none, .none, .none, .none, .none, .none, .ac,
   .adtc, .none, .none, .none, .none, .none, .none, .none]

/-- `sd_cmd_class` -/
def sdCmdClass : List Nat :=
  [0, 0, 0, 0, 0, 9, 10, 0, 0, 0, 0, 1, 0, 0, 0, 0,
   2, 2, 2, 2, 3, 3, 3, 3, 4, 4, 4, 4, 6, 6, 6, 6,
   5, 5, 10, 10, 10, 10, 5, 9, 9, 9, 7, 7, 7, 7, 7, 7,
   7, 7, 10, 7, 9, 9, 9, 8, 8, 10, 8, 8, 8, 8, 8, 8]

/-! ### Registers -/

/-- One bit of a message goes into the register. -/
def crcStep {w : Nat} (poly shiftReg : BitVec w) (bit : Bool) : BitVec w :=
  let shiftReg := shiftReg <<< 1
  if shiftReg.msb ^^ bit then shiftReg ^^^ poly else shiftReg

/-- The bits of a list of words, the highest one of each first. -/
def messageBits {w : Nat} (message : List (BitVec w)) : List Bool :=
  message.flatMap fun x => (List.range w).map x.getMsbD

/-- `sd_crc7` -/
def sdCrc7 (message : List Byte) : BitVec 8 := (messageBits message).foldl (crcStep 0x89) 0

/-- The width is doubled, and the message read as words of 16 bits. -/
def sdCrc16 (message : List Byte) : BitVec 16 :=
  (messageBits ((List.range (message.length / 2)).map fun i =>
    message.getD (2 * i + 1) 0 ++ message.getD (2 * i) 0)).foldl (crcStep 0x1011) 0

/-- The bytes of a word, the lowest one first. -/
def le32 (x : BitVec 32) : List Byte :=
  [x.setWidth 8, (x >>> 8).setWidth 8, (x >>> 16).setWidth 8, (x >>> 24).setWidth 8]

/-- The bytes of a word, the highest one first. -/
def be32 (x : BitVec 32) : List Byte :=
  [(x >>> 24).setWidth 8, (x >>> 16).setWidth 8, (x >>> 8).setWidth 8, x.setWidth 8]

/-- Bytes with a checksum at the end. -/
def withCrc7 (message : List Byte) : List Byte := message ++ [sdCrc7 message <<< 1 ||| 1]

/-- `sd_set_cid` -/
def sdCid : List Byte :=
  withCrc7
    [0xaa, 0x58, 0x59, 0x51, 0x45, 0x4d, 0x55, 0x21, 0x01, 0xde, 0xad, 0xbe, 0xef, 0x00, 0x62]

/-- Above it the card is one of high capacity. -/
def sdStandardSize : Nat := 0x40000000

/-- `sd_set_csd` -/
def sdCsd (size : Nat) : List Byte :=
  if size ≤ sdStandardSize then
    let csize : BitVec 32 := BitVec.ofNat 32 (size >>> (CMULT_SHIFT + HWBLOCK_SHIFT)) - 1
    let sectsize : BitVec 8 := (1 <<< (SECTOR_SHIFT + 1)) - 1
    let wpsize : BitVec 8 := BitVec.ofNat 8 ((1 <<< (WPGROUP_SHIFT + 1)) - 1)
    let cmult : BitVec 8 := BitVec.ofNat 8 (CMULT_SHIFT - 2)
    let hwblock : BitVec 8 := BitVec.ofNat 8 HWBLOCK_SHIFT
    withCrc7
      [0x00, 0x26, 0x00, 0x5a, 0x5f, 0x50 ||| hwblock,
       0xe0 ||| ((csize >>> 10).setWidth 8 &&& 0x03), (csize >>> 2).setWidth 8,
       0x3f ||| ((csize <<< 6).setWidth 8 &&& 0xc0), 0xfc ||| (cmult >>> 1),
       0x40 ||| ((cmult <<< 7) &&& 0x80) ||| (sectsize >>> 1),
       ((sectsize <<< 7) &&& 0x80) ||| wpsize, 0x90 ||| (hwblock >>> 2),
       0x20 ||| ((hwblock <<< 6) &&& 0xc0), 0x00]
  else
    let csize := size / (512 * 1024) - 1
    [0x40, 0x0e, 0x00, 0x32, 0x5b, 0x59, 0x00, BitVec.ofNat 8 (csize >>> 16),
     BitVec.ofNat 8 (csize >>> 8), BitVec.ofNat 8 csize, 0x7f, 0x80, 0x0a, 0x40, 0x00, 0x00]

/-- `sd_csd_rw_mask` -/
def sdCsdRwMask : List Byte :=
  [0x00, 0x00, 0x00, 0x00, 0x00, 0x00, 0x00, 0x00, 0x00, 0x00, 0x00, 0x00, 0x00, 0x00, 0xfc, 0xfe]

/-! ### The card -/

/-- What the card knows of its block device. -/
structure SdBdrv where
  sectors : Nat
  readOnly : Bool
  inserted : Bool
deriving DecidableEq

/-- The elements of `wp_groups` for a size. -/
def wpGroupCount (size : Nat) : Nat := wpGroup size + 1

/-- `SDState` -/
structure SDState where
  mode : SdMode
  state : SdCardState
  ocr : BitVec 32
  scr : CArray Byte 8
  cid : CArray Byte 16
  csd : CArray Byte 16
  rca : BitVec 16
  cardStatus : BitVec 32
  sdStatus : CArray Byte 64
  vhs : BitVec 32
  wpSwitch : Bool
  size : Nat
  wpGroups : CArray Bool (wpGroupCount size)
  blkLen : Nat
  eraseStart : BitVec 32
  eraseEnd : BitVec 32
  pwd : CArray Byte 16
  pwdLen : Nat
  spi : Bool
  currentCmd : Nat
  blkWritten : BitVec 32
  dataStart : Nat
  dataOffset : Nat
  data : CArray Byte 512
  bdrv : Option SdBdrv
  buf : CArray Byte 512
  enable : Bool

/-- An array with such elements. -/
def ofBytes (n : Nat) (l : List Byte) : CArray Byte n := ⟨fun i => l.getD i 0⟩

/-- `sd_reset` -/
def sdReset (sd : SDState) (bdrv : Option SdBdrv) : SDState :=
  let sect := match bdrv with
    | some b => b.sectors
    | none => 0
  let size := sect <<< 9 + 1
  { sd with
    state := .idle
    rca := 0
    ocr := if size ≤ sdStandardSize then 0x80ffff00 else 0x80ffff00 ||| 1 <<< 30
    scr := ofBytes 8 [0x00, 0x2f]
    cid := ofBytes 16 sdCid
    csd := ofBytes 16 (sdCsd size)
    cardStatus := 0x00000100
    sdStatus := CArray.const 64 0
    bdrv := bdrv
    wpSwitch := match bdrv with
      | some b => b.readOnly
      | none => false
    size := size
    wpGroups := CArray.const _ false
    eraseStart := 0
    eraseEnd := 0
    blkLen := 0x200
    pwdLen := 0 }

/-- `sd_init`: memory that is cleared, and a reset. -/
def sdInit (bdrv : Option SdBdrv) (spi : Bool) : SDState :=
  sdReset
    { mode := .inactive, state := .idle, ocr := 0, scr := .const 8 0, cid := .const 16 0,
      csd := .const 16 0, rca := 0, cardStatus := 0, sdStatus := .const 64 0, vhs := 0,
      wpSwitch := false, size := 0, wpGroups := .const _ false, blkLen := 0, eraseStart := 0,
      eraseEnd := 0, pwd := .const 16 0, pwdLen := 0, spi := spi, currentCmd := 0, blkWritten := 0,
      dataStart := 0, dataOffset := 0, data := .const 512 0, bdrv := none, buf := .const 512 0,
      enable := true } bdrv

/-- `sd_set_status` -/
def sdSetStatus (sd : SDState) : SDState :=
  { sd with
    mode := match sd.state with
      | .inactive => .inactive
      | .idle | .ready | .identification => .cardIdentification
      | _ => .dataTransfer
    cardStatus := sd.cardStatus &&& ~~~CURRENT_STATE ||| sd.state.code <<< 9 }

/-- Bits of the status are set. -/
def SDState.raise (sd : SDState) (bits : BitVec 32) : SDState :=
  { sd with cardStatus := sd.cardStatus ||| bits }

/-- Some of the bits of the status are set. -/
def SDState.has (sd : SDState) (bits : BitVec 32) : Bool := sd.cardStatus &&& bits ≠ 0

/-- A bit of `csd[14]` is set. -/
def SDState.csdHas (sd : SDState) (bits : Byte) : Bool := sd.csd.cell 14 &&& bits ≠ 0

/-- `sd->csd[14] = …` -/
def SDState.setCsd14 (sd : SDState) (x : Byte) : SDState :=
  { sd with csd := sd.csd.write 14 [x] (Nat.le_of_ble_eq_true rfl) }

/-- The card is there: what all functions ask first. -/
def SDState.present (sd : SDState) : Bool :=
  match sd.bdrv with
  | none => false
  | some b => b.inserted && sd.enable

/-- A transfer begins. -/
def SDState.startData (sd : SDState) (state : SdCardState) (dataStart : Nat) : SDState :=
  { sd with state := state, dataStart := dataStart, dataOffset := 0 }

/-! ### Write protection, functions, the lock -/

/-- `sd->wp_groups[addr >> …]` of a 32-bit address. -/
def sdWpAddr (sd : SDState) (addr : Nat) : Option Bool := sd.wpGroups.load (wpGroup (addr % 2 ^ 32))

/-- The loop of `sd_erase` over the groups. -/
def eraseLoop (sd : SDState) (groups : List Nat) : Option (BitVec 32) :=
  groups.foldlM (fun status i => (sd.wpGroups.load i).map fun wp =>
    if wp then status ||| WP_ERASE_SKIP else status) sd.cardStatus

/-- `sd_erase` -/
def sdErase (sd : SDState) : Option SDState :=
  if sd.eraseStart = 0 ∨ sd.eraseEnd = 0 then some (sd.raise ERASE_SEQ_ERROR)
  else
    let first := wpGroup sd.eraseStart.toNat
    let last := wpGroup sd.eraseEnd.toNat
    (eraseLoop sd (List.range' first (last + 1 - first))).map fun status =>
      { (sd.setCsd14 (sd.csd.cell 14 ||| 0x40)) with
        eraseStart := 0
        eraseEnd := 0
        cardStatus := status }

/-- The bits of the 32 groups from an address on. -/
def sdWpbits (sd : SDState) (addr : Nat) : Option (BitVec 32) :=
  (List.range 32).foldlM (fun ret i =>
    if addr + i * 2 ^ 21 < sd.size then
      (sd.wpGroups.load (wpGroup addr + i)).map fun wp => if wp then ret ||| 1 <<< i else ret
    else some ret) 0

/-- The new function of a group. -/
def newFunc (arg : BitVec 32) (i : Nat) : Byte := (arg >>> (i * 4)).setWidth 8 &&& 0x0f

/-- `sd_function_switch` -/
def sdFunctionSwitch (sd : SDState) (arg : BitVec 32) : Option SDState :=
  let data := sd.data.write 0
    [0x00, 0x01, 0x80, 0x01, 0x80, 0x01, 0x80, 0x01, 0x80, 0x01, 0x80, 0x43, 0x80, 0x03]
    (Nat.le_of_ble_eq_true rfl)
  -- two groups go to each byte, and the second one is what stays
  let data := data.write 14
    [newFunc arg 1 <<< 4, newFunc arg 3 <<< 4, newFunc arg 5 <<< 4] (Nat.le_of_ble_eq_true rfl)
  let data := data.write 17 (List.replicate 47 0) (Nat.le_of_ble_eq_true rfl)
  (data.slice 0 (64 * 2 * 2)).map fun message =>
    let crc := sdCrc16 message
    { sd with
      data := data.write 65 [(crc >>> 8).setWidth 8, crc.setWidth 8] (Nat.le_of_ble_eq_true rfl) }

/-- `CMD42` with the erase bit. -/
def sdForceErase (sd : SDState) (others : Bool) : Option SDState :=
  if !sd.has CARD_IS_LOCKED || 1 < sd.blkLen || others || sd.wpSwitch || sd.csdHas 0x20 then
    some (sd.raise LOCK_UNLOCK_FAILED)
  else
    (sd.wpGroups.fill (wpGroup sd.size) false).map fun wpGroups =>
      { sd with
        wpGroups := wpGroups
        cardStatus := sd.cardStatus &&& ~~~CARD_IS_LOCKED
        pwdLen := 0 }.setCsd14 (sd.csd.cell 14 &&& ~~~0x10)

/-- A byte has a bit. -/
def bit (x mask : Byte) : Bool := x &&& mask ≠ 0

/-- A new password. -/
def sdSetPwd (sd : SDState) (newLen : Nat) : Option SDState :=
  (sd.data.slice (2 + sd.pwdLen) newLen).bind fun l =>
  (sd.pwd.copy 0 l).map fun pwd => { sd with pwd := pwd, pwdLen := newLen }

/-- `sd_lock_command` -/
def sdLockCommand (sd : SDState) : Option SDState :=
  let erase := bit (sd.data.cell 0) 0x08
  let lock := bit (sd.data.cell 0) 0x04
  let clrPwd := bit (sd.data.cell 0) 0x02
  let setPwd := bit (sd.data.cell 0) 0x01
  let pwdLen := if 1 < sd.blkLen then (sd.data.cell 1).toNat else 0
  if erase then sdForceErase sd (setPwd || clrPwd || lock)
  else if sd.blkLen < 2 + pwdLen ∨ pwdLen ≤ sd.pwdLen ∨ sd.pwdLen + 16 < pwdLen then
    some (sd.raise LOCK_UNLOCK_FAILED)
  else
    (sd.data.slice 2 sd.pwdLen).bind fun given =>
    (sd.pwd.slice 0 sd.pwdLen).bind fun pwd =>
    if given ≠ pwd then some (sd.raise LOCK_UNLOCK_FAILED)
    else
      let newLen := pwdLen - sd.pwdLen
      if (newLen ≠ 0 && !setPwd) || (clrPwd && (setPwd || lock)) ||
          (lock && sd.pwdLen = 0 && !setPwd) ||
          (!setPwd && !clrPwd &&
            ((sd.has CARD_IS_LOCKED && lock) || (!sd.has CARD_IS_LOCKED && !lock))) then
        some (sd.raise LOCK_UNLOCK_FAILED)
      else
        (if setPwd then sdSetPwd sd newLen else some sd).map fun sd =>
          let sd := if clrPwd then { sd with pwdLen := 0 } else sd
          { sd with cardStatus :=
            if lock then sd.cardStatus ||| CARD_IS_LOCKED
            else sd.cardStatus &&& ~~~CARD_IS_LOCKED }

/-! ### Commands -/

/-- What a command leaves, and the kind of response. -/
abbrev SdResult := SDState × SdRspType

/-- The end of `sd_normal_command`, for a command in a wrong state and for one that is not known. -/
def sdIllegal (sd : SDState) : Option SdResult := some (sd.raise ILLEGAL_COMMAND, .r0)

/-- A command that is known in one state of the card. -/
def SDState.inState (sd : SDState) (state : SdCardState) (next : Option SdResult) :
    Option SdResult := if sd.state = state then next else sdIllegal sd

/-- A command that is not known to a card on an SPI bus. -/
def SDState.notSpi (sd : SDState) (next : Option SdResult) : Option SdResult :=
  if sd.spi then sdIllegal sd else next

/-- The address is checked, but the command goes on. -/
def SDState.checkAddress (sd : SDState) : SDState :=
  if sd.size < sd.dataStart + sd.blkLen then sd.raise ADDRESS_ERROR else sd

/-- The common part of CMD17 and CMD18. -/
def sdReadBlock (sd : SDState) (addr : Nat) : Option SdResult :=
  sd.inState .transfer (some ((sd.startData .sendingdata addr).checkAddress, .r1))

/-- The common part of CMD24 and CMD25. -/
def sdWriteBlock (sd : SDState) (addr : Nat) : Option SdResult :=
  sd.notSpi <| sd.inState .transfer <|
    let sd := { (sd.startData .receivingdata addr) with blkWritten := 0 }.checkAddress
    (sdWpAddr sd sd.dataStart).map fun wp =>
      let sd := if wp then sd.raise WP_VIOLATION else sd
      (if sd.csdHas 0x30 then sd.raise WP_VIOLATION else sd, .r1)

/-- The common part of CMD28 and CMD29. -/
def sdSetWriteProt (sd : SDState) (addr : Nat) (wp : Bool) : Option SdResult :=
  sd.inState .transfer <|
    if sd.size ≤ addr then some ({ sd with cardStatus := ADDRESS_ERROR }, .r1b)
    else (sd.wpGroups.store (wpGroup addr) wp).map fun wpGroups =>
      ({ sd with wpGroups := wpGroups }, .r1b)

/-- The common part of CMD9 and CMD10. -/
def sdSendRegister (sd : SDState) (rca : BitVec 32) (addr : Nat) (register : CArray Byte 16)
    (rsp : SdRspType) : Option SdResult :=
  match sd.state with
  | .standby => some (sd, if sd.rca.setWidth 32 ≠ rca then .r0 else rsp)
  | .transfer =>
    if sd.spi then
      some ({ (sd.startData .sendingdata addr) with
        data := sd.data.write 0 ((List.range 16).map register.cell)
          (Nat.le_of_ble_eq_true rfl) }, .r1)
    else sdIllegal sd
  | _ => sdIllegal sd

/-- The common part of CMD26, CMD27 and CMD42. -/
def sdReceiveFrom (sd : SDState) : Option SdResult :=
  sd.notSpi (sd.inState .transfer (some (sd.startData .receivingdata 0, .r1)))

/-- CMD7: SELECT/DESELECT_CARD -/
def sdSelectCard (sd : SDState) (rca : BitVec 32) : Option SdResult :=
  match sd.state with
  | .standby =>
    if sd.rca.setWidth 32 ≠ rca then some (sd, .r0) else some ({ sd with state := .transfer }, .r1b)
  | .transfer | .sendingdata =>
    if sd.rca.setWidth 32 = rca then sdIllegal sd else some ({ sd with state := .standby }, .r1b)
  | .disconnect =>
    if sd.rca.setWidth 32 ≠ rca then some (sd, .r0)
    else some ({ sd with state := .programming }, .r1b)
  | .programming =>
    if sd.rca.setWidth 32 = rca then sdIllegal sd
    else some ({ sd with state := .disconnect }, .r1b)
  | _ => sdIllegal sd

/-- The place of the lowest bit that is set, from 1 on; 0 if there is none. -/
def ffs (x : BitVec 32) : Nat :=
  match (List.range 32).find? x.getLsbD with
  | none => 0
  | some i => i + 1

/-- CMD8: SEND_IF_COND -/
def sdSendIfCond (sd : SDState) (arg : BitVec 32) : Option SdResult :=
  sd.inState .idle <|
    if arg >>> 8 = 0 ∨ arg >>> ffs (arg &&& ~~~0xff) ≠ 0 then
      some ({ sd with vhs := 0 }, if sd.spi then .r7 else .r0)
    else some ({ sd with vhs := arg }, .r7)

/-- CMD12: STOP_TRANSMISSION -/
def sdStopTransmission (sd : SDState) : Option SdResult :=
  match sd.state with
  | .sendingdata | .receivingdata => some ({ sd with state := .transfer }, .r1b)
  | _ => sdIllegal sd

/-- The address that an argument stands for. -/
def sdAddr (sd : SDState) (arg : BitVec 32) : Nat :=
  if sd.ocr &&& 1 <<< 30 ≠ 0 then arg.toNat <<< 9 else arg.toNat

/-- `case` by `case`; `break` leads to the end of the function. -/
def sdNormalCommand (sd : SDState) (cmd : Nat) (arg : BitVec 32) : Option SdResult :=
  (sdCmdType[cmd]?).bind fun type =>
  let addr := sdAddr sd arg
  let rca : BitVec 32 := if type = .ac ∨ type = .adtc then arg >>> 16 else 0
  match cmd with
  | 0 =>
    match sd.state with
    | .inactive => some (sd, if sd.spi then .r1 else .r0)
    | _ => some (sdReset sd sd.bdrv, if sd.spi then .r1 else .r0)
  | 1 => if sd.spi then some ({ sd with state := .transfer }, .r1) else sdIllegal sd
  | 2 => sd.notSpi (sd.inState .ready (some ({ sd with state := .identification }, .r2i)))
  | 3 =>
    sd.notSpi <|
      if sd.state = .identification ∨ sd.state = .standby then
        some ({ sd with state := .standby, rca := sd.rca + 0x4567 }, .r6)
      else sdIllegal sd
  | 4 => sdIllegal sd
  | 6 =>
    sd.notSpi <|
      if sd.mode = .dataTransfer then
        (sdFunctionSwitch sd arg).map fun sd => (sd.startData .sendingdata 0, .r1)
      else sdIllegal sd
  | 7 => sd.notSpi (sdSelectCard sd rca)
  | 8 => sdSendIfCond sd arg
  | 9 => sdSendRegister sd rca addr sd.csd .r2s
  | 10 => sdSendRegister sd rca addr sd.cid .r2i
  | 11 =>
    sd.notSpi <| sd.inState .transfer <|
      some ((sd.startData .sendingdata arg.toNat).checkAddress, .r0)
  | 12 => sdStopTransmission sd
  | 13 =>
    if sd.mode = .dataTransfer then some (sd, if sd.rca.setWidth 32 ≠ rca then .r0 else .r1)
    else sdIllegal sd
  | 15 =>
    sd.notSpi <|
      if sd.mode = .dataTransfer then
        if sd.rca.setWidth 32 ≠ rca then some (sd, .r0)
        else some ({ sd with state := .inactive }, .r0)
      else sdIllegal sd
  | 16 =>
    sd.inState .transfer <|
      if 1 <<< HWBLOCK_SHIFT < arg.toNat then some (sd.raise BLOCK_LEN_ERROR, .r1)
      else some ({ sd with blkLen := arg.toNat }, .r1)
  | 17 => sdReadBlock sd addr
  | 18 => sdReadBlock sd addr
  | 24 => sdWriteBlock sd addr
  | 25 => sdWriteBlock sd addr
  | 26 => sdReceiveFrom sd
  | 27 => sdReceiveFrom sd
  | 28 => sdSetWriteProt sd addr true
  | 29 => sdSetWriteProt sd addr false
  | 30 =>
    sd.inState .transfer <|
      (sdWpbits sd arg.toNat).map fun bits =>
        ({ (sd.startData .sendingdata addr) with
          data := sd.data.write 0 (le32 bits) (Nat.le_of_ble_eq_true rfl) }, .r1b)
  | 32 => sd.inState .transfer (some ({ sd with eraseStart := arg }, .r1))
  | 33 => sd.inState .transfer (some ({ sd with eraseEnd := arg }, .r1))
  | 38 =>
    sd.inState .transfer <|
      if sd.csdHas 0x30 then some (sd.raise WP_VIOLATION, .r1b)
      else (sdErase sd).map fun sd => ({ sd with state := .transfer }, .r1b)
  | 42 => sdReceiveFrom sd
  | 55 =>
    if sd.rca.setWidth 32 ≠ rca then some (sd, .r0) else some (sd.raise APP_CMD, .r1)
  | 56 =>
    sd.inState .transfer <|
      some ({ sd with
        dataOffset := 0
        state := if arg &&& 1 ≠ 0 then .sendingdata else .receivingdata }, .r1)
  | _ => sdIllegal sd

/-- An application command in a wrong state. -/
def sdAppInState (sd : SDState) (state : SdCardState) (next : SdResult) : SdResult :=
  if sd.state = state then next else (sd, .r0)

/-- `sd_app_command` -/
def sdAppCommand (sd : SDState) (cmd : Nat) (arg : BitVec 32) : Option SdResult :=
  (sdCmdType[cmd]?).bind fun _ =>
  match cmd with
  | 6 =>
    some <| sdAppInState sd .transfer
      ({ sd with
        sdStatus := sd.sdStatus.write 0
          [sd.sdStatus.cell 0 &&& 0x3f ||| (arg.setWidth 8 &&& 0x03) <<< 6]
          (Nat.le_of_ble_eq_true rfl) }, .r1)
  | 13 => some (sdAppInState sd .transfer ({ sd with dataStart := 0, dataOffset := 0 }, .r1))
  | 22 =>
    some <| sdAppInState sd .transfer
      ({ sd with
        data := sd.data.write 0 (le32 sd.blkWritten) (Nat.le_of_ble_eq_true rfl)
        dataStart := 0
        dataOffset := 0 }, .r1)
  | 23 => some (sdAppInState sd .transfer (sd, .r1))
  | 41 =>
    if sd.spi then some ({ sd with state := .transfer }, .r1)
    else
      some <| sdAppInState sd .idle
        (if arg ≠ 0 then { sd with state := .ready } else sd, .r3)
  | 42 => some (sdAppInState sd .transfer (sd, .r1))
  | 51 => some (sdAppInState sd .transfer (sd.startData .sendingdata 0, .r1))
  | _ => sdNormalCommand { sd with cardStatus := sd.cardStatus &&& ~~~APP_CMD } cmd arg

/-- The response; a normal one clears bits of the status. -/
def sdResponse (sd : SDState) (lastStatus : BitVec 32) : SdRspType → SDState × List Byte
  | .r1 | .r1b =>
    let mask := CARD_STATUS_B ^^^ ILLEGAL_COMMAND
    ({ sd with cardStatus := sd.cardStatus &&& (~~~CARD_STATUS_C ||| APP_CMD) },
      be32 (sd.cardStatus &&& ~~~mask ||| lastStatus &&& mask))
  | .r2i => (sd, (List.range 16).map sd.cid.cell)
  | .r2s => (sd, (List.range 16).map sd.csd.cell)
  | .r3 => (sd, be32 sd.ocr)
  | .r6 =>
    let status := (sd.cardStatus >>> 8 &&& 0xc000) ||| (sd.cardStatus >>> 6 &&& 0x2000) |||
      (sd.cardStatus &&& 0x1fff)
    (sd, be32 (sd.rca ++ status.setWidth 16))
  | .r7 => (sd, be32 sd.vhs)
  | .r0 => (sd, [])

/-- A card that is locked does not take this command. -/
def sdLockRefuses (lastStatus : BitVec 32) (cmd : Nat) : Option Bool :=
  if lastStatus &&& CARD_IS_LOCKED = 0 then some false
  else if lastStatus &&& APP_CMD ≠ 0 then some (cmd = 41)
  else (sdCmdClass[cmd]?).map fun c => c = 0 || c = 7 || cmd = 16 || cmd = 55

/-- `sd_do_command` -/
def sdDoCommand (sd : SDState) (cmd : Nat) (arg : BitVec 32) : Option (SDState × List Byte) :=
  if !sd.present then some (sd, [])
  else
    let lastStatus := sd.cardStatus
    let sd := sdSetStatus { sd with cardStatus := sd.cardStatus &&& ~~~CARD_STATUS_B }
    (sdLockRefuses lastStatus cmd).bind fun refuses =>
    if refuses then some (sd.raise ILLEGAL_COMMAND, [])
    else
      (if lastStatus &&& APP_CMD ≠ 0 then
        (sdAppCommand sd cmd arg).map fun r =>
          ({ r.1 with cardStatus := r.1.cardStatus &&& ~~~APP_CMD }, r.2)
      else sdNormalCommand sd cmd arg).map fun r =>
        let answer := sdResponse { r.1 with currentCmd := cmd } lastStatus r.2
        (answer.1, if answer.1.has ILLEGAL_COMMAND then [] else answer.2)

/-! ### Data -/

/-- What the block layer does in one call: the buffer that a read leaves, or its error; whether the
first write of two is without one. -/
structure BdrvAnswers where
  read1 : Option (CArray Byte 512)
  write1 : Bool
  read2 : Option (CArray Byte 512)

/-- `sd_blk_read` -/
def sdBlkRead (sd : SDState) (addr len : Nat) (answers : BdrvAnswers) : Option SDState :=
  match answers.read1 with
  | none => some sd
  | some buf =>
    if addr - addr % 512 + 512 < addr + len then
      (buf.slice (addr % 512) (512 - addr % 512)).bind fun l =>
      (sd.data.copy 0 l).bind fun data =>
        match answers.read2 with
        | none => some { sd with buf := buf, data := data }
        | some buf =>
          (buf.slice 0 ((addr + len) % 512)).bind fun l =>
          (data.copy (512 - addr % 512) l).map fun data => { sd with buf := buf, data := data }
    else
      (buf.slice (addr % 512) len).bind fun l =>
      (sd.data.copy 0 l).map fun data => { sd with buf := buf, data := data }

/-- Behind the read that fills up a sector that is not written whole. -/
def sdBlkWriteBuf (sd : SDState) (buf : CArray Byte 512) (addr len : Nat) (answers : BdrvAnswers) :
    Option SDState :=
  if addr - addr % 512 + 512 < addr + len then
    (sd.data.slice 0 (512 - addr % 512)).bind fun l =>
    (buf.copy (addr % 512) l).bind fun buf =>
      if !answers.write1 then some { sd with buf := buf }
      else
        match answers.read2 with
        | none => some { sd with buf := buf }
        | some buf =>
          (sd.data.slice (512 - addr % 512) ((addr + len) % 512)).bind fun l =>
          (buf.copy 0 l).map fun buf => { sd with buf := buf }
  else
    (sd.data.slice 0 len).bind fun l =>
    (buf.copy (addr % 512) l).map fun buf => { sd with buf := buf }

/-- `sd_blk_write` -/
def sdBlkWrite (sd : SDState) (addr len : Nat) (answers : BdrvAnswers) : Option SDState :=
  if addr % 512 ≠ 0 ∨ len < 512 then
    match answers.read1 with
    | none => some sd
    | some buf => sdBlkWriteBuf sd buf addr len answers
  else sdBlkWriteBuf sd sd.buf addr len answers

/-- `sd->data[sd->data_offset ++] = value` -/
def sdStoreByte (sd : SDState) (value : Byte) : Option SDState :=
  (sd.data.store sd.dataOffset value).map fun data =>
    { sd with data := data, dataOffset := sd.dataOffset + 1 }

/-- `data_offset` has come to the end of what is expected; the transfer ends. -/
def SDState.endTransfer (sd : SDState) (limit : Nat) (next : SDState → Option SDState) :
    Option SDState :=
  if limit ≤ sd.dataOffset then (next sd).map fun sd => { sd with state := .transfer } else some sd

/-- CMD26 with all of its data: bits can only be cleared. -/
def sdProgramCid (sd : SDState) : SDState :=
  let sd := if (List.range 16).any fun i => sd.cid.cell i ≠ sd.data.cell i then
    sd.raise CID_CSD_OVERWRITE else sd
  if sd.has CID_CSD_OVERWRITE then sd
  else { sd with cid := ⟨fun i => sd.cid.cell i &&& sd.data.cell i⟩ }

/-- CMD27 with all of its data. -/
def sdProgramCsd (sd : SDState) : SDState :=
  let mask := fun i => sdCsdRwMask.getD i 0
  let sd := if (List.range 16).any fun i =>
      sd.csd.cell i ||| mask i ≠ sd.data.cell i ||| mask i then
    sd.raise CID_CSD_OVERWRITE else sd
  let sd := if sd.csd.cell 14 &&& ~~~sd.data.cell 14 &&& 0x60 ≠ 0 then
    sd.raise CID_CSD_OVERWRITE else sd
  if sd.has CID_CSD_OVERWRITE then sd
  else { sd with csd := ⟨fun i => (sd.csd.cell i ||| mask i) &&& sd.data.cell i⟩ }

/-- CMD25 with a whole block. -/
def sdWriteMultiple (sd : SDState) (answers : BdrvAnswers) : Option SDState :=
  (sdBlkWrite { sd with state := .programming } sd.dataStart sd.dataOffset answers).bind fun sd =>
    let sd := { sd with
      blkWritten := sd.blkWritten + 1
      dataStart := sd.dataStart + sd.blkLen
      dataOffset := 0 }
    if sd.size < sd.dataStart + sd.blkLen then some (sd.raise ADDRESS_ERROR)
    else
      (sdWpAddr sd sd.dataStart).map fun wp =>
        if wp then sd.raise WP_VIOLATION
        else { sd.setCsd14 (sd.csd.cell 14 ||| 0x40) with state := .receivingdata }

/-- `sd_write_data` -/
def sdWriteData (sd : SDState) (value : Byte) (answers : BdrvAnswers) : Option SDState :=
  if !sd.present then some sd
  else if sd.state ≠ .receivingdata then some sd
  else if sd.has (ADDRESS_ERROR ||| WP_VIOLATION) then some sd
  else
    match sd.currentCmd with
    | 24 =>
      (sdStoreByte sd value).bind fun sd => sd.endTransfer sd.blkLen fun sd =>
        (sdBlkWrite sd sd.dataStart sd.dataOffset answers).map fun sd =>
          { sd.setCsd14 (sd.csd.cell 14 ||| 0x40) with blkWritten := sd.blkWritten + 1 }
    | 25 =>
      (sdStoreByte sd value).bind fun sd =>
        if sd.blkLen ≤ sd.dataOffset then sdWriteMultiple sd answers else some sd
    | 26 => (sdStoreByte sd value).bind fun sd => sd.endTransfer 16 fun sd => some (sdProgramCid sd)
    | 27 => (sdStoreByte sd value).bind fun sd => sd.endTransfer 16 fun sd => some (sdProgramCsd sd)
    | 42 => (sdStoreByte sd value).bind fun sd => sd.endTransfer sd.blkLen sdLockCommand
    | 56 => (sdStoreByte sd value).bind fun sd => sd.endTransfer sd.blkLen some
    | _ => some sd

/-- A byte of an array is read, and the transfer ends at the limit. -/
def sdLoadByte {n : Nat} (sd : SDState) (a : CArray Byte n) (limit : Nat) :
    Option (SDState × Byte) :=
  (a.load sd.dataOffset).map fun ret =>
    ({ sd with
      dataOffset := sd.dataOffset + 1
      state := if limit ≤ sd.dataOffset + 1 then .transfer else sd.state }, ret)

/-- The block is read in front of its first byte. -/
def sdFillBlock (sd : SDState) (ioLen : Nat) (answers : BdrvAnswers) : Option SDState :=
  if sd.dataOffset = 0 then sdBlkRead sd sd.dataStart ioLen answers else some sd

/-- CMD11 and CMD18: behind a block comes the next one. -/
def sdReadMultiple (sd : SDState) (ioLen : Nat) (answers : BdrvAnswers) :
    Option (SDState × Byte) :=
  (sdFillBlock sd ioLen answers).bind fun sd =>
  (sd.data.load sd.dataOffset).map fun ret =>
    let sd := { sd with dataOffset := sd.dataOffset + 1 }
    if ioLen ≤ sd.dataOffset then
      let sd := { sd with dataStart := sd.dataStart + ioLen, dataOffset := 0 }
      (if sd.size < sd.dataStart + ioLen then sd.raise ADDRESS_ERROR else sd, ret)
    else (sd, ret)

/-- `sd_read_data` -/
def sdReadData (sd : SDState) (answers : BdrvAnswers) : Option (SDState × Byte) :=
  if !sd.present then some (sd, 0)
  else if sd.state ≠ .sendingdata then some (sd, 0)
  else if sd.has (ADDRESS_ERROR ||| WP_VIOLATION) then some (sd, 0)
  else
    let ioLen := if sd.ocr &&& 1 <<< 30 ≠ 0 then 512 else sd.blkLen
    match sd.currentCmd with
    | 6 => sdLoadByte sd sd.data 64
    | 9 => sdLoadByte sd sd.data 16
    | 10 => sdLoadByte sd sd.data 16
    | 11 => sdReadMultiple sd ioLen answers
    | 13 => sdLoadByte sd sd.sdStatus 64
    | 17 => (sdFillBlock sd ioLen answers).bind fun sd => sdLoadByte sd sd.data ioLen
    | 18 => sdReadMultiple sd ioLen answers
    | 22 => sdLoadByte sd sd.data 4
    | 30 => sdLoadByte sd sd.data 4
    | 51 => sdLoadByte sd sd.scr 8
    | 56 =>
      (if sd.dataOffset = 0 then
        (sd.data.fill sd.blkLen 0xec).map fun data => { sd with data := data }
      else some sd).bind fun sd => sdLoadByte sd sd.data sd.blkLen
    | _ => some (sd, 0)

/-! ### Runs -/

inductive SdAction
  /-- `mmc_send_command`: the number of the command is the upper byte of a register. -/
  | sendCommand (cmdreg : BitVec 16) (cmdarg : BitVec 32)
  | readData (answers : BdrvAnswers)
  | writeData (value : Byte) (answers : BdrvAnswers)

/-- What the card does at each of them. -/
def SdAction.exec (sd : SDState) : SdAction → Option SDState
  | .sendCommand cmdreg cmdarg => (sdDoCommand sd (cmdreg >>> 8).toNat cmdarg).map (·.1)
  | .readData answers => (sdReadData sd answers).map (·.1)
  | .writeData value answers => sdWriteData sd value answers

end Qemu.Hw
