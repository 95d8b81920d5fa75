import Qemu.Lib.Bytes
import Qemu.Lib.Runs

namespace Qemu.Hw

open Lib

/-!
# The USB OTG controller of the S5PC1XX (`hw/s5pc1xx_usb_otg.c`)

A network card that the guest sees as a device of its USB host.

* `otgUpdateIrq`, `otgEpUpdateIrq` — the interrupts of the endpoints, the controller and the line;
* `otgDataTx`, `otgDataRx`, `otgReceive` — packets;
* `otgEpWrite`, `otgWrite` — the registers;
* `OtgOp.exec` — a write of the guest, or a packet.
-/

/-! ### Constants -/

/-- `USB_INT_USBRST` -/
def USB_INT_USBRST : BitVec 32 := 1 <<< 12

/-- `USB_INT_ENUMDONE` -/
def USB_INT_ENUMDONE : BitVec 32 := 1 <<< 13

/-- `EP_INT_XFERCOMPL` -/
def EP_INT_XFERCOMPL : BitVec 32 := 1 <<< 0

/-- `EP_INT_EPDISABLED` -/
def EP_INT_EPDISABLED : BitVec 32 := 1 <<< 1

/-- `EP_INT_SETUP` -/
def EP_INT_SETUP : BitVec 32 := 1 <<< 3

/-- `EP_INT_TXFEMP` -/
def EP_INT_TXFEMP : BitVec 32 := 1 <<< 7

/-- `OTG_EP_ENABLE` -/
def OTG_EP_ENABLE : BitVec 32 := 1 <<< 31

/-- `OTG_EP_DISABLE` -/
def OTG_EP_DISABLE : BitVec 32 := 1 <<< 30

/-- `OTG_EP_DIR_IN` and `OTG_EP_DIR_OUT` -/
inductive OtgDir
  | dirIn | dirOut
deriving DecidableEq

theorem otgEps_neZero : NeZero 16 := ⟨by decide⟩

attribute [local instance] otgEps_neZero

/-- The place of `USB_INT_IEPINT` or `USB_INT_OEPINT`. -/
def OtgDir.epint : OtgDir → Nat
  | .dirIn => 18
  | .dirOut => 19

/-- The half of `daint_sts` and `daint_msk` of a direction. -/
def OtgDir.half : OtgDir → BitVec 32
  | .dirIn => 0xffff
  | .dirOut => 0xffff0000

/-- The bit of an endpoint in `daint_sts`. -/
def OtgDir.daint (dir : OtgDir) (n : Fin 16) : Nat :=
  match dir with
  | .dirIn => n
  | .dirOut => n + 16

/-- `OtgLogicalState` -/
inductive OtgLogicalState
  | start | reset | speedDetect | setConfigS | setConfigW | setConfigD | setIfaceS | setIfaceW
  | setIfaceD | operational
deriving DecidableEq

/-- The setup packet that sets the interface. -/
def otgSetupIface : List Byte := [0x01, 0x0B, 0x01, 0x00, 0x01, 0x00, 0x00, 0x00]

/-- The setup packet that sets the configuration. -/
def otgSetupConfig : List Byte := [0x00, 0x09, 0x01, 0x00, 0x00, 0x00, 0x00, 0x00]

/-! ### State -/

/-- `S5pc1xxUsbOtgEndPoint` -/
structure OtgEndPoint where
  ctrl : BitVec 32
  interrupt : BitVec 32
  transferSize : BitVec 32
  dmaAddr : BitVec 32
  dmaBuf : BitVec 32
  inFifoSize : BitVec 32

/-- `S5pc1xxPhyState` -/
structure OtgPhy where
  power : BitVec 32
  clock : BitVec 32
  reset : BitVec 32
  tune0 : BitVec 32
  tune1 : BitVec 32

/-- `S5pc1xxUsbOtgState` with its line, the memory of the guest and the packets that were sent.
    `ep` are `ep_in` and `ep_out`, and `buf_size` is the length of `buf`. -/
structure Otg where
  phy : OtgPhy
  gotgCtl : BitVec 32
  gotgInt : BitVec 32
  gahbCfg : BitVec 32
  gusbCfg : BitVec 32
  grstCtl : BitVec 32
  gintSts : BitVec 32
  gintMsk : BitVec 32
  grxFsiz : BitVec 32
  gnptxFsiz : BitVec 32
  hnptxFsiz : BitVec 32
  daintSts : BitVec 32
  daintMsk : BitVec 32
  diepMsk : BitVec 32
  doepMsk : BitVec 32
  ep : OtgDir → Fin 16 → OtgEndPoint
  state : OtgLogicalState
  buf : List Byte
  bufFull : Bool
  irq : Bool
  mem : Nat → Byte
  sent : List (List Byte)

/-- A change of an endpoint. -/
def Otg.withEp (s : Otg) (dir : OtgDir) (n : Fin 16) (f : OtgEndPoint → OtgEndPoint) : Otg :=
  { s with ep := Function.update s.ep dir (Function.update (s.ep dir) n (f (s.ep dir n))) }

/-- An endpoint raises interrupts. -/
def Otg.raiseEp (s : Otg) (dir : OtgDir) (n : Fin 16) (bits : BitVec 32) : Otg :=
  s.withEp dir n fun e => { e with interrupt := e.interrupt ||| bits }

/-- `cpu_physical_memory_write` -/
def Otg.dmaWrite (s : Otg) (addr : BitVec 32) (l : List Byte) : Otg :=
  { s with mem := storeAt s.mem addr.toNat l }

/-! ### Interrupts -/

/-- `s5pc1xx_usb_otg_update_irq` -/
def otgUpdateIrq (s : Otg) : Otg := { s with irq := s.gintSts &&& s.gintMsk != 0 }

/-- A bit is set or cleared. -/
def otgPutBit (x : BitVec 32) (i : Nat) (b : Bool) : BitVec 32 :=
  if b then x ||| BitVec.twoPow 32 i else x &&& ~~~BitVec.twoPow 32 i

/-- `s5pc1xx_usb_otg_ep_update_irq` -/
def otgEpUpdateIrq (s : Otg) (dir : OtgDir) (n : Fin 16) : Otg :=
  let daintSts := otgPutBit s.daintSts (dir.daint n) ((s.ep dir n).interrupt != 0)
  otgUpdateIrq { s with
    daintSts := daintSts
    gintSts := otgPutBit s.gintSts dir.epint (daintSts &&& s.daintMsk &&& dir.half != 0) }

/-! ### Reset and configuration -/

/-- `s5pc1xx_usb_otg_initial_reset` -/
def otgInitialReset (s : Otg) : Otg :=
  { s with
    phy := ⟨0x000001F9, 0x00000000, 0x00000009, 0x000919B3, 0x000919B3⟩
    gotgCtl := 0x00010000
    gotgInt := 0x00000000
    gahbCfg := 0x00000000
    gusbCfg := 0x00001408
    grstCtl := 0x80000000
    gintSts := 0x04000020
    gintMsk := 0x00000000
    state := .start
    bufFull := false }

/-- `s5pc1xx_usb_otg_reset` -/
def otgReset (s : Otg) : Otg :=
  let s := otgInitialReset s
  { s with
    state := .reset
    gotgCtl := s.gotgCtl + 0x000C0000
    gintSts := s.gintSts ||| USB_INT_USBRST }

/-- A step of the configuration: a setup packet arrives at the first endpoint if it is enabled. -/
def otgSetup (s : Otg) (next : OtgLogicalState) (packet : List Byte) : Otg :=
  let e := s.ep .dirOut 0
  if e.ctrl &&& OTG_EP_ENABLE != 0 then
    let s := { s with state := next }.dmaWrite e.dmaAddr packet
    let s := s.withEp .dirOut 0 fun e => { e with
      ctrl := e.ctrl &&& ~~~OTG_EP_ENABLE
      interrupt := e.interrupt ||| (EP_INT_SETUP ||| EP_INT_XFERCOMPL) }
    otgEpUpdateIrq s .dirOut 0
  else s

/-- `s5pc1xx_usb_otg_act` -/
def otgAct (s : Otg) : Otg :=
  match s.state with
  | .setConfigS => otgSetup s .setConfigW otgSetupConfig
  | .setIfaceS => otgSetup s .setIfaceW otgSetupIface
  | _ => s

/-! ### Packets -/

/-- The length in a transfer size. -/
def OtgEndPoint.length (e : OtgEndPoint) : Nat := (e.transferSize &&& 0x7ffff).toNat

/-- `s5pc1xx_usb_otg_data_rx` -/
def otgDataRx (s : Otg) (dir : OtgDir) (n : Fin 16) : Otg :=
  let e := s.ep dir n
  if e.length < s.buf.length then { s with bufFull := false }
  else
    let size := BitVec.ofNat 32 s.buf.length
    let s := { s.dmaWrite e.dmaAddr s.buf with bufFull := false }
    let s := s.withEp dir n fun e => { e with
      dmaBuf := e.dmaAddr + size
      transferSize := e.transferSize - size
      ctrl := e.ctrl &&& ~~~OTG_EP_ENABLE
      interrupt := e.interrupt ||| EP_INT_XFERCOMPL }
    otgEpUpdateIrq s dir n

/-- `s5pc1xx_usb_otg_receive`; `none` if the packet does not fit the buffer. -/
def otgReceive (s : Otg) (packet : List Byte) : Option Otg :=
  if 1600 < packet.length then none
  else
    let s := { s with bufFull := true, buf := packet }
    match (List.finRange 16).find? fun n => (s.ep .dirOut n).ctrl &&& OTG_EP_ENABLE != 0 with
    | some n => some (otgDataRx s .dirOut n)
    | none => some s

/-- `s5pc1xx_usb_otg_data_tx`.  Packets may arrive while one is sent.  `none` if the packet does not
    fit the local buffer. -/
def otgDataTx (s : Otg) (dir : OtgDir) (n : Fin 16) (arrivals : List (List Byte)) : Option Otg :=
  let e := s.ep dir n
  if 1600 < e.length then none
  else
    let s := { s with sent := s.sent ++ [bytesAt s.mem e.dmaAddr.toNat e.length] }
    (runFrom otgReceive s arrivals).map fun s =>
      otgEpUpdateIrq (s.raiseEp dir n (EP_INT_XFERCOMPL ||| EP_INT_TXFEMP)) dir n

/-! ### Registers -/

/-- An endpoint that is enabled is disabled. -/
def otgEpDisable (s : Otg) (dir : OtgDir) (n : Fin 16) (val : BitVec 32) : Otg :=
  if val &&& OTG_EP_DISABLE != 0 && (s.ep dir n).ctrl &&& OTG_EP_ENABLE != 0 then
    let s := s.withEp dir n fun e => { e with
      ctrl := e.ctrl &&& ~~~OTG_EP_ENABLE
      interrupt := e.interrupt ||| EP_INT_EPDISABLED }
    otgEpUpdateIrq s dir n
  else s

/-- The first endpoint sends. -/
def otgEpControl (s : Otg) : Otg :=
  let s := s.raiseEp .dirIn 0 (EP_INT_XFERCOMPL ||| EP_INT_TXFEMP)
  let s := { s with
    state :=
      if s.state = .setConfigW then .setIfaceS
      else if s.state = .setIfaceW then .operational
      else s.state }
  otgEpUpdateIrq s .dirIn 0

/-- An endpoint is enabled: it sends or receives.  The second value says if it stays enabled. -/
def otgEpEnable (s : Otg) (dir : OtgDir) (n : Fin 16) (arrivals : List (List Byte)) :
    Option (Otg × Bool) :=
  let s := otgAct s
  match dir with
  | .dirIn =>
    if n = 0 then some (otgEpControl s, true)
    else (otgDataTx s .dirIn n arrivals).map fun s => (s, false)
  | .dirOut =>
    if n ≠ 0 ∧ s.bufFull then some (otgDataRx s .dirOut n, false)
    else some (s, true)

/-- The control register of an endpoint. -/
def otgEpWriteCtrl (s : Otg) (dir : OtgDir) (n : Fin 16) (val : BitVec 32)
    (arrivals : List (List Byte)) : Option Otg :=
  let s := otgEpDisable s dir n val
  let val := val &&& ~~~OTG_EP_DISABLE
  let enabled :=
    if val &&& OTG_EP_ENABLE != 0 then otgEpEnable s dir n arrivals else some (s, true)
  enabled.map fun r =>
    let val := if r.2 then val else val &&& ~~~OTG_EP_ENABLE
    r.1.withEp dir n fun e => { e with
      ctrl := val &&& ~~~((0xC : BitVec 32) <<< 24) }

/-- `s5pc1xx_usb_otg_ep_write`; `none` is `hw_error`. -/
def otgEpWrite (s : Otg) (dir : OtgDir) (n : Fin 16) (addr : Nat) (val : BitVec 32)
    (arrivals : List (List Byte)) : Option Otg :=
  match addr with
  | 0x00 => otgEpWriteCtrl s dir n val arrivals
  | 0x08 =>
    let s := s.withEp dir n fun e => { e with interrupt := e.interrupt &&& ~~~val }
    some (otgEpUpdateIrq s dir n)
  | 0x10 => some (s.withEp dir n fun e => { e with transferSize := val })
  | 0x14 => some (s.withEp dir n fun e => { e with dmaAddr := val })
  | _ => none

/-- `s5pc1xx_usb_otg_phy_mm_write` -/
def otgPhyWrite (s : Otg) (offset : Nat) (val : BitVec 32) : Option Otg :=
  match offset with
  | 0x00 => some { s with phy := { s.phy with power := val } }
  | 0x04 => some { s with phy := { s.phy with clock := val } }
  | 0x08 =>
    if val &&& 0x1f != 0 then
      let s := otgReset s
      some (otgUpdateIrq { s with gintSts := s.gintSts ||| USB_INT_USBRST })
    else some s
  | 0x20 => some { s with phy := { s.phy with tune0 := val } }
  | 0x40 => some { s with phy := { s.phy with tune1 := val } }
  | _ => none

/-- The reset register. -/
def otgWriteGrstCtl (s : Otg) (val : BitVec 32) : Otg :=
  let busReset := fun s : Otg => otgUpdateIrq { s with
    gintSts := s.gintSts ||| USB_INT_USBRST
    state := .reset }
  let s :=
    if val &&& 1 != 0 then busReset (otgReset s)
    else if val &&& 0x0f != 0 then busReset s
    else s
  otgUpdateIrq { s with grstCtl := val &&& ~~~0x3f }

/-- The bits of the interrupt register that a write does not clear. -/
def otgGintFixed : BitVec 32 := 7 <<< 24 ||| 3 <<< 18 ||| 0xf <<< 4 ||| 0x5

/-- The bus reset has been taken notice of. -/
def otgAckReset (s : Otg) : Otg :=
  otgAct { s with
    gintSts := s.gintSts ||| USB_INT_ENUMDONE
    state := .speedDetect }

/-- The enumeration has been taken notice of. -/
def otgAckEnumDone (s : Otg) : Otg := otgAct { s with state := .setConfigS }

/-- The interrupt register: bits are cleared, and the configuration goes on. -/
def otgWriteGintSts (s : Otg) (val : BitVec 32) : Otg :=
  let val := val &&& ~~~otgGintFixed
  let s := { s with gintSts := s.gintSts &&& ~~~val }
  let s := if val = 0x1000 then otgAckReset s else s
  let s := if val = USB_INT_ENUMDONE then otgAckEnumDone s else s
  otgUpdateIrq s

/-- The mask of the endpoints. -/
def otgWriteDaintMsk (s : Otg) (val : BitVec 32) : Otg :=
  let gintSts := otgPutBit s.gintSts OtgDir.dirIn.epint (s.daintSts &&& 0xffff &&& val != 0)
  let gintSts := otgPutBit gintSts OtgDir.dirOut.epint ((s.daintSts &&& val) >>> 16 != 0)
  otgUpdateIrq { s with daintMsk := val, gintSts := gintSts }

/-- The interrupts of all endpoints of a direction. -/
def otgEpUpdateAll (s : Otg) (dir : OtgDir) : Otg :=
  (List.finRange 16).foldl (fun s n => otgEpUpdateIrq s dir n) s

/-- `s5pc1xx_usb_otg_write` -/
def otgWrite (s : Otg) (addr : Nat) (val : BitVec 32) (arrivals : List (List Byte)) : Option Otg :=
  if 0x100000 ≤ addr ∧ addr < 0x100028 then otgPhyWrite s (addr - 0x100000) val
  else if h : 0x900 ≤ addr ∧ addr ≤ 0xAFC then
    otgEpWrite s .dirIn ⟨(addr - 0x900) / 32, by omega⟩ ((addr - 0x900) % 32) val arrivals
  else if h : 0xB00 ≤ addr ∧ addr ≤ 0xCFC then
    otgEpWrite s .dirOut ⟨(addr - 0xB00) / 32, by omega⟩ ((addr - 0xB00) % 32) val arrivals
  else if h : 0x100 ≤ addr ∧ addr ≤ 0x13C then
    some (s.withEp .dirIn ⟨(addr - 0x100) / 4, by omega⟩ fun e => { e with inFifoSize := val })
  else
    match addr with
    | 0x00 => some { s with gotgCtl := val }
    | 0x04 => some (otgUpdateIrq { s with gotgInt := s.gotgInt &&& ~~~val })
    | 0x08 => some { s with gahbCfg := val }
    | 0x0C => some { s with gusbCfg := val }
    | 0x10 => some (otgWriteGrstCtl s val)
    | 0x14 => some (otgWriteGintSts s val)
    | 0x18 => some { s with gintMsk := val }
    | 0x24 => some { s with grxFsiz := val }
    | 0x28 => some { s with gnptxFsiz := val }
    | 0x30 => some { s with hnptxFsiz := val }
    | 0x810 => some (otgEpUpdateAll { s with diepMsk := val } .dirIn)
    | 0x814 => some (otgEpUpdateAll { s with doepMsk := val } .dirOut)
    | 0x81C => some (otgWriteDaintMsk s val)
    | _ => some s

/-- The new controller after `s5pc1xx_usb_otg_init1`. -/
def otgInit (mem : Nat → Byte) : Otg :=
  otgInitialReset
    { phy := ⟨0, 0, 0, 0, 0⟩
      gotgCtl := 0
      gotgInt := 0
      gahbCfg := 0
      gusbCfg := 0
      grstCtl := 0
      gintSts := 0
      gintMsk := 0
      grxFsiz := 0
      gnptxFsiz := 0
      hnptxFsiz := 0
      daintSts := 0
      daintMsk := 0
      diepMsk := 0
      doepMsk := 0
      ep := fun _ _ => ⟨0, 0, 0, 0, 0, 0⟩
      state := .start
      buf := []
      bufFull := false
      irq := false
      mem := mem
      sent := [] }

/-- What the guest and the network do to the controller. -/
inductive OtgOp
  | write (addr : Nat) (val : BitVec 32) (arrivals : List (List Byte))
  | receive (packet : List Byte)

/-- One operation, if it does not end in `hw_error`. -/
def OtgOp.exec (s : Otg) : OtgOp → Option Otg
  | .write addr val arrivals => otgWrite s addr val arrivals
  | .receive packet => otgReceive s packet

end Qemu.Hw
