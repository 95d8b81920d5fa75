import Qemu.Hw.Virtio
import Qemu.Lib.CArray
import Qemu.Lib.Stream

namespace Qemu.Hw

open Lib

/-!
# The receive filter of the virtio network device (`hw/virtio-net.c`)

* `virtioNetHandleRxMode`, `virtioNetHandleMac`, `virtioNetHandleVlanTable` — the control commands;
* `virtioNetHandleCtrl` — an element of the control queue;
* `receiveFilter` — whether a packet is for the guest.

A buffer of the guest is a function from its bytes; `Outcome.overran` is an access behind the end of
an array of the device.  Statistics, queues and the header of a packet are left out.
-/

def MAC_TABLE_ENTRIES : Nat := 64
def MAX_VLAN : BitVec 16 := 0x1000
def ETH_ALEN : Nat := 6

def VIRTIO_NET_OK : Byte := 0
def VIRTIO_NET_ERR : Byte := 1

def VIRTIO_NET_CTRL_RX_MODE : Byte := 0
def VIRTIO_NET_CTRL_RX_MODE_PROMISC : Byte := 0
def VIRTIO_NET_CTRL_RX_MODE_ALLMULTI : Byte := 1
def VIRTIO_NET_CTRL_RX_MODE_ALLUNI : Byte := 2
def VIRTIO_NET_CTRL_RX_MODE_NOMULTI : Byte := 3
def VIRTIO_NET_CTRL_RX_MODE_NOUNI : Byte := 4
def VIRTIO_NET_CTRL_RX_MODE_NOBCAST : Byte := 5

def VIRTIO_NET_CTRL_MAC : Byte := 1
def VIRTIO_NET_CTRL_MAC_TABLE_SET : Byte := 0

def VIRTIO_NET_CTRL_VLAN : Byte := 2
def VIRTIO_NET_CTRL_VLAN_ADD : Byte := 0
def VIRTIO_NET_CTRL_VLAN_DEL : Byte := 1

/-- `VirtIONet` as far as the filter goes. -/
structure VirtIONet where
  mac : List Byte
  hasVnetHdr : Bool
  promisc : Byte
  allmulti : Byte
  alluni : Byte
  nomulti : Byte
  nouni : Byte
  nobcast : Byte
  inUse : BitVec 32
  firstMulti : BitVec 32
  multiOverflow : Bool
  uniOverflow : Bool
  macs : CArray Byte (MAC_TABLE_ENTRIES * ETH_ALEN)
  vlans : CArray (BitVec 32) 128

/-- `virtio_net_init` -/
def virtioNetInit (mac : List Byte) (hasVnetHdr : Bool) : VirtIONet where
  mac := mac
  hasVnetHdr := hasVnetHdr
  promisc := 1
  allmulti := 0
  alluni := 0
  nomulti := 0
  nouni := 0
  nobcast := 0
  inUse := 0
  firstMulti := 0
  multiOverflow := false
  uniOverflow := false
  macs := .const _ 0
  vlans := .const _ 0

/-- A buffer of the guest. -/
abbrev GuestBuf := IoVec (Nat → Byte)

/-- `ldl_le_p` -/
def ldlLe (p : Nat → Byte) : BitVec 32 := p 3 ++ p 2 ++ p 1 ++ p 0

/-- `lduw_le_p` -/
def lduwLe (p : Nat → Byte) : BitVec 16 := p 1 ++ p 0

/-! ### Commands -/

/-- `virtio_net_handle_rx_mode` -/
def virtioNetHandleRxMode (n : VirtIONet) (cmd : Byte) (outSg : List GuestBuf) :
    Outcome (VirtIONet × Byte) :=
  match outSg with
  | [_, data] =>
    if data.iovLen ≠ 1 then .exited
    else
      let on := data.iovBase 0
      .returned <|
        if cmd = VIRTIO_NET_CTRL_RX_MODE_PROMISC then ({ n with promisc := on }, VIRTIO_NET_OK)
        else if cmd = VIRTIO_NET_CTRL_RX_MODE_ALLMULTI then
          ({ n with allmulti := on }, VIRTIO_NET_OK)
        else if cmd = VIRTIO_NET_CTRL_RX_MODE_ALLUNI then ({ n with alluni := on }, VIRTIO_NET_OK)
        else if cmd = VIRTIO_NET_CTRL_RX_MODE_NOMULTI then
          ({ n with nomulti := on }, VIRTIO_NET_OK)
        else if cmd = VIRTIO_NET_CTRL_RX_MODE_NOUNI then ({ n with nouni := on }, VIRTIO_NET_OK)
        else if cmd = VIRTIO_NET_CTRL_RX_MODE_NOBCAST then
          ({ n with nobcast := on }, VIRTIO_NET_OK)
        else (n, VIRTIO_NET_ERR)
  | _ => .exited

/-- `mac_data.entries * ETH_ALEN` -/
def macBytes (entries : BitVec 32) : Nat := (entries * BitVec.ofNat 32 ETH_ALEN).toNat

/-- The addresses of a buffer, behind their number. -/
def macData (buf : GuestBuf) (entries : BitVec 32) : List Byte :=
  (List.range (macBytes entries)).map fun i => buf.iovBase (4 + i)

/-- The buffer is too small for its number of addresses. -/
def macShort (buf : GuestBuf) (entries : BitVec 32) : Prop := buf.iovLen < 4 + macBytes entries

instance macShort_decidable (buf : GuestBuf) (entries : BitVec 32) :
    Decidable (macShort buf entries) :=
  inferInstanceAs (Decidable (_ < _))

/-- The addresses of a buffer are put into the table, from an address on. -/
def VirtIONet.addMacs (n : VirtIONet) (place : Nat) (buf : GuestBuf) (entries : BitVec 32) :
    Option VirtIONet :=
  (n.macs.copy (place * ETH_ALEN) (macData buf entries)).map fun macs =>
    { n with macs := macs, inUse := n.inUse + entries }

/-- The first list of `MAC_TABLE_SET`. -/
def VirtIONet.setUni (n : VirtIONet) (buf : GuestBuf) (entries : BitVec 32) : Option VirtIONet :=
  if entries.toNat ≤ MAC_TABLE_ENTRIES then n.addMacs 0 buf entries
  else some { n with uniOverflow := true }

/-- The second list. -/
def VirtIONet.setMulti (n : VirtIONet) (buf : GuestBuf) (entries : BitVec 32) :
    Option VirtIONet :=
  if entries ≠ 0 then
    if (n.inUse + entries).toNat ≤ MAC_TABLE_ENTRIES then n.addMacs n.inUse.toNat buf entries
    else some { n with multiOverflow := true }
  else some n

/-- The table is empty. -/
def VirtIONet.clearMacs (n : VirtIONet) : VirtIONet :=
  { n with
    inUse := 0
    firstMulti := 0
    uniOverflow := false
    multiOverflow := false
    macs := .const _ 0 }

/-- `none` is a store behind the end of an array. -/
def Outcome.ofOption {α : Type} : Option α → Outcome α
  | some a => .returned a
  | none => .overran

/-- `virtio_net_handle_mac` -/
def virtioNetHandleMac (n : VirtIONet) (cmd : Byte) (outSg : List GuestBuf) :
    Outcome (VirtIONet × Byte) :=
  match outSg with
  | [_, uni, multi] =>
    if cmd ≠ VIRTIO_NET_CTRL_MAC_TABLE_SET ∨ uni.iovLen < 4 ∨ multi.iovLen < 4 then
      .returned (n, VIRTIO_NET_ERR)
    else
      let n := n.clearMacs
      if macShort uni (ldlLe uni.iovBase) then .returned (n, VIRTIO_NET_ERR)
      else
        .ofOption <| (n.setUni uni (ldlLe uni.iovBase)).bind fun n =>
          let n := { n with firstMulti := n.inUse }
          if macShort multi (ldlLe multi.iovBase) then some (n, VIRTIO_NET_ERR)
          else (n.setMulti multi (ldlLe multi.iovBase)).map fun n => (n, VIRTIO_NET_OK)
  | _ => .returned (n, VIRTIO_NET_ERR)

/-- The element of `vlans` with a VLAN, and its bit there. -/
def vlanWord (vid : BitVec 16) : Nat := (vid >>> 5).toNat

/-- The bit of a VLAN in its word. -/
def vlanMask (vid : BitVec 16) : BitVec 32 := (1 : BitVec 32) <<< (vid &&& (0x1f : BitVec 16)).toNat

/-- `virtio_net_handle_vlan_table` -/
def virtioNetHandleVlanTable (n : VirtIONet) (cmd : Byte) (outSg : List GuestBuf) :
    Outcome (VirtIONet × Byte) :=
  match outSg with
  | [_, data] =>
    if data.iovLen ≠ 2 then .returned (n, VIRTIO_NET_ERR)
    else
      let vid := lduwLe data.iovBase
      if MAX_VLAN ≤ vid then .returned (n, VIRTIO_NET_ERR)
      else if cmd = VIRTIO_NET_CTRL_VLAN_ADD then
        .ofOption <| (n.vlans.load (vlanWord vid)).bind fun word =>
          (n.vlans.store (vlanWord vid) (word ||| vlanMask vid)).map fun vlans =>
            ({ n with vlans := vlans }, VIRTIO_NET_OK)
      else if cmd = VIRTIO_NET_CTRL_VLAN_DEL then
        .ofOption <| (n.vlans.load (vlanWord vid)).bind fun word =>
          (n.vlans.store (vlanWord vid) (word &&& ~~~vlanMask vid)).map fun vlans =>
            ({ n with vlans := vlans }, VIRTIO_NET_OK)
      else .returned (n, VIRTIO_NET_ERR)
  | _ => .returned (n, VIRTIO_NET_ERR)

/-- A turn of the loop of `virtio_net_handle_ctrl`: an element of the control queue, and the status
that is put into its last buffer.  A class that is not known leaves the status as it was. -/
def virtioNetHandleCtrl {w : Nat} (n : VirtIONet) (status : Byte)
    (elem : VirtQueueElement w (Nat → Byte)) : Outcome (VirtIONet × Byte) :=
  match elem.outSg, elem.inSg.getLast? with
  | header :: _, some last =>
    if header.iovLen < 2 ∨ last.iovLen < 1 then .exited
    else
      let cmd := header.iovBase 1
      if header.iovBase 0 = VIRTIO_NET_CTRL_RX_MODE then virtioNetHandleRxMode n cmd elem.outSg
      else if header.iovBase 0 = VIRTIO_NET_CTRL_MAC then virtioNetHandleMac n cmd elem.outSg
      else if header.iovBase 0 = VIRTIO_NET_CTRL_VLAN then
        virtioNetHandleVlanTable n cmd elem.outSg
      else .returned (n, status)
  | _, _ => .exited

/-! ### Packets -/

/-- A loop of `receive_filter` over so many addresses of the table. -/
def macScan (n : VirtIONet) (dst : List Byte) : Nat → Int → Option Bool
  | 0, _ => some false
  | count + 1, i =>
    if i < 0 then none
    else
      (n.macs.slice (i.toNat * ETH_ALEN) ETH_ALEN).bind fun mac =>
        if dst = mac then some true else macScan n dst count (i + 1)

/-- The bytes of a packet from an offset on. -/
def frameBytes (ptr : Nat → Byte) (offset len : Nat) : List Byte :=
  (List.range len).map fun i => ptr (offset + i)

/-- The packet is of a VLAN that is not allowed. -/
def vlanRefused (n : VirtIONet) (ptr : Nat → Byte) : Option Bool :=
  if frameBytes ptr 12 2 = [0x81, 0x00] then
    let vid : BitVec 16 := (ptr 14 ++ ptr 15) &&& (0xfff : BitVec 16)
    (n.vlans.load (vlanWord vid)).map fun word => decide (word &&& vlanMask vid = 0)
  else some false

/-- A packet, behind the header if there is one. -/
def VirtIONet.frame (n : VirtIONet) (buf : Nat → Byte) : Nat → Byte := fun i =>
  buf ((if n.hasVnetHdr then 10 else 0) + i)

/-- The destination decides. -/
def receiveFilterMac (n : VirtIONet) (ptr : Nat → Byte) : Option Bool :=
  let dst := frameBytes ptr 0 ETH_ALEN
  if ptr 0 &&& 1 ≠ 0 then
    if dst = List.replicate 6 0xff then some (n.nobcast = 0)
    else if n.nomulti ≠ 0 then some false
    else if n.allmulti ≠ 0 ∨ n.multiOverflow then some true
    else macScan n dst (n.inUse.toInt - n.firstMulti.toInt).toNat n.firstMulti.toInt
  else
    if n.nouni ≠ 0 then some false
    else if n.alluni ≠ 0 ∨ n.uniOverflow then some true
    else if dst = n.mac then some true
    else macScan n dst n.firstMulti.toInt.toNat 0

/-- `receive_filter` -/
def receiveFilter (n : VirtIONet) (buf : Nat → Byte) : Option Bool :=
  if n.promisc ≠ 0 then some true
  else
    (vlanRefused n (n.frame buf)).bind fun refused =>
      if refused then some false else receiveFilterMac n (n.frame buf)

end Qemu.Hw
