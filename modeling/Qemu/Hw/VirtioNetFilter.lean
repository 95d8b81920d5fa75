import Qemu.Hw.VirtioNet

namespace Qemu.Hw

open Lib

/-!
# What the receive filter of the network device accepts

* `NetFilter` — the filter as the guest sees it: flags, VLANs and two tables of addresses;
* `NetCommand`, `NetFilter.obey` — the commands, and what they make of it;
* `NetFilter.Accepts` — the packets that are for the guest;
* `VirtIONet.Refines` — the device has this filter, and every command keeps that;
* `virtio_net_filter` — the runs of commands.

A `MAC_TABLE_SET` that fails behind its first checks has changed the table; nothing is said of the
tables until the next one that does not fail.
-/

/-! ### The filter -/

/-- The addresses of one kind, or there are too many of them. -/
abbrev MacTable := Option (List (List Byte))

/-- The table takes the address; one that overflowed takes all. -/
def MacTable.Takes (t : MacTable) (dst : List Byte) : Prop := ∀ l ∈ t, dst ∈ l

/-- The flags, by the commands that set them, the VLANs that are allowed, and the tables of unicast
    and multicast addresses. -/
structure NetFilter where
  flags : Byte → Bool
  vlans : Nat → Bool
  tables : Option (MacTable × MacTable)

/-- At first all packets are accepted. -/
def NetFilter.start : NetFilter where
  flags cmd := decide (cmd = VIRTIO_NET_CTRL_RX_MODE_PROMISC)
  vlans _ := false
  tables := some (some [], some [])

/-- The VLAN of a packet, if it has one. -/
def frameVlan (ptr : Nat → Byte) : Option Nat :=
  if frameBytes ptr 12 2 = [0x81, 0x00] then
    some ((ptr 14 ++ ptr 15) &&& (0xfff : BitVec 16)).toNat
  else none

/-- An untagged frame, or one of a VLAN that was added. -/
def NetFilter.AllowsVlan (f : NetFilter) (ptr : Nat → Byte) : Prop :=
  ∀ vid ∈ frameVlan ptr, f.vlans vid = true

/-- The destination of a packet is accepted: it is the broadcast one, a multicast one, or a unicast
    one, the device's own among them. -/
def NetFilter.AcceptsMac (f : NetFilter) (mac : List Byte) (t : MacTable × MacTable)
    (ptr : Nat → Byte) : Prop :=
  let dst := frameBytes ptr 0 ETH_ALEN
  if ptr 0 &&& 1 ≠ 0 then
    if dst = List.replicate 6 0xff then f.flags VIRTIO_NET_CTRL_RX_MODE_NOBCAST = false
    else f.flags VIRTIO_NET_CTRL_RX_MODE_NOMULTI = false ∧
      (f.flags VIRTIO_NET_CTRL_RX_MODE_ALLMULTI = true ∨ t.2.Takes dst)
  else f.flags VIRTIO_NET_CTRL_RX_MODE_NOUNI = false ∧
    (f.flags VIRTIO_NET_CTRL_RX_MODE_ALLUNI = true ∨ dst = mac ∨ t.1.Takes dst)

/-- A packet is accepted by the device with an address. -/
def NetFilter.Accepts (f : NetFilter) (mac : List Byte) (t : MacTable × MacTable)
    (ptr : Nat → Byte) : Prop :=
  f.flags VIRTIO_NET_CTRL_RX_MODE_PROMISC = true ∨ f.AllowsVlan ptr ∧ f.AcceptsMac mac t ptr

/-! ### Commands -/

/-- The number of addresses in a buffer, and the addresses. -/
def macCount (buf : GuestBuf) : Nat := (ldlLe buf.iovBase).toNat

/-- The addresses in a buffer. -/
def macList (buf : GuestBuf) : List (List Byte) :=
  (List.range (macCount buf)).map fun i =>
    (List.range ETH_ALEN).map fun j => buf.iovBase (4 + (i * ETH_ALEN + j))

/-- The tables of two buffers: what does not fit the device's table is too much. -/
def macTables (uni multi : GuestBuf) : MacTable × MacTable :=
  let used := if macCount uni ≤ MAC_TABLE_ENTRIES then macCount uni else 0
  (if macCount uni ≤ MAC_TABLE_ENTRIES then some (macList uni) else none,
    if macCount multi = 0 ∨ used + macCount multi ≤ MAC_TABLE_ENTRIES then some (macList multi)
    else none)

/-- What the driver asks for. -/
inductive NetCommand
  | rxMode (cmd : Byte) (on : Bool)
  | macTable (uni multi : GuestBuf)
  | vlan (vid : Nat) (allowed : Bool)

/-- The filter after it. -/
def NetFilter.obey (f : NetFilter) : NetCommand → NetFilter
  | .rxMode cmd on => { f with flags := Function.update f.flags cmd on }
  | .macTable uni multi => { f with tables := some (macTables uni multi) }
  | .vlan vid allowed => { f with vlans := Function.update f.vlans vid allowed }

/-- A command that fails. -/
def NetFilter.fail (f : NetFilter) : NetCommand → NetFilter
  | .macTable _ _ => { f with tables := none }
  | _ => f

/-- A receive mode, as the buffers spell it. -/
def rxModeCommand (cmd : Byte) : List GuestBuf → Option NetCommand
  | [_, data] => some (.rxMode cmd (data.iovBase 0 ≠ 0))
  | _ => none

/-- `MAC_TABLE_SET` has two buffers with a number each. -/
def macCommand (cmd : Byte) : List GuestBuf → Option NetCommand
  | [_, uni, multi] =>
    if cmd ≠ VIRTIO_NET_CTRL_MAC_TABLE_SET ∨ uni.iovLen < 4 ∨ multi.iovLen < 4 then none
    else some (.macTable uni multi)
  | _ => none

/-- A VLAN, as the buffers spell it. -/
def vlanCommand (cmd : Byte) : List GuestBuf → Option NetCommand
  | [_, data] =>
    some (.vlan (lduwLe data.iovBase).toNat (decide (cmd = VIRTIO_NET_CTRL_VLAN_ADD)))
  | _ => none

/-- The command of the buffers, if they have the shape of one. -/
def netCommand (outSg : List GuestBuf) : Option NetCommand :=
  match outSg with
  | header :: _ =>
    if header.iovBase 0 = VIRTIO_NET_CTRL_RX_MODE then rxModeCommand (header.iovBase 1) outSg
    else if header.iovBase 0 = VIRTIO_NET_CTRL_MAC then macCommand (header.iovBase 1) outSg
    else if header.iovBase 0 = VIRTIO_NET_CTRL_VLAN then vlanCommand (header.iovBase 1) outSg
    else none
  | [] => none

/-- The filter after a command with this status. -/
def NetFilter.after (f : NetFilter) (command : Option NetCommand) (status : Byte) : NetFilter :=
  match command with
  | none => f
  | some command => if status = VIRTIO_NET_OK then f.obey command else f.fail command

/-! ### The device -/

/-- A flag, by the command that sets it. -/
def VirtIONet.rxMode (n : VirtIONet) (cmd : Byte) : Byte :=
  if cmd = VIRTIO_NET_CTRL_RX_MODE_PROMISC then n.promisc
  else if cmd = VIRTIO_NET_CTRL_RX_MODE_ALLMULTI then n.allmulti
  else if cmd = VIRTIO_NET_CTRL_RX_MODE_ALLUNI then n.alluni
  else if cmd = VIRTIO_NET_CTRL_RX_MODE_NOMULTI then n.nomulti
  else if cmd = VIRTIO_NET_CTRL_RX_MODE_NOUNI then n.nouni
  else if cmd = VIRTIO_NET_CTRL_RX_MODE_NOBCAST then n.nobcast
  else 0

/-- The addresses of a part of the table. -/
def macSlots (macs : CArray Byte (MAC_TABLE_ENTRIES * ETH_ALEN)) (start count : Nat) :
    List (List Byte) :=
  (List.range' start count).map fun i =>
    (List.range ETH_ALEN).map fun j => macs.cell (i * ETH_ALEN + j)

/-- The tables of unicast and multicast addresses. -/
def VirtIONet.tables (n : VirtIONet) : MacTable × MacTable :=
  (if n.uniOverflow then none else some (macSlots n.macs 0 n.firstMulti.toNat),
    if n.multiOverflow then none
    else some (macSlots n.macs n.firstMulti.toNat (n.inUse.toNat - n.firstMulti.toNat)))

/-- `0 <= first_multi <= in_use <= MAC_TABLE_ENTRIES` -/
structure VirtIONet.Bounded (n : VirtIONet) : Prop where
  first : n.firstMulti.toNat ≤ n.inUse.toNat
  inUse : n.inUse.toNat ≤ MAC_TABLE_ENTRIES

/-- The device has this filter. -/
structure VirtIONet.Refines (n : VirtIONet) (f : NetFilter) : Prop where
  bounded : n.Bounded
  flags : ∀ cmd : Byte, cmd.toNat < 6 → f.flags cmd = decide (n.rxMode cmd ≠ 0)
  vlans : ∀ vid : BitVec 16, vid.toNat < 0x1000 →
    f.vlans vid.toNat = decide (n.vlans.cell (vlanWord vid) &&& vlanMask vid ≠ 0)
  tables : ∀ t ∈ f.tables, n.tables = t

theorem toInt_of_le {x : BitVec 32} {m : Nat} (h : x.toNat ≤ m) (hm : m < 2 ^ 31) :
    x.toInt = x.toNat := by
  rw [BitVec.toInt_eq_toNat_cond, if_pos (by omega)]

/-! ### Packets -/

section

variable {n : VirtIONet} {f : NetFilter}

/-- The loop finds an address that is in its part of the table. -/
theorem macScan_eq (dst : List Byte) (count i : Nat) (h : i + count ≤ MAC_TABLE_ENTRIES) :
    macScan n dst count i = some (decide (dst ∈ macSlots n.macs i count)) := by
  unfold MAC_TABLE_ENTRIES at h
  induction count generalizing i with
  | zero => exact congrArg some (decide_eq_false List.not_mem_nil).symm
  | succ count ih =>
    have hslice : n.macs.slice (i * ETH_ALEN) ETH_ALEN = some _ :=
      if_pos (show i * 6 + 6 ≤ 64 * 6 by omega)
    have hrest := ih (i + 1) (by omega)
    rw [macScan, if_neg (by omega), Int.toNat_natCast, hslice, Option.bind_some]
    by_cases hdst : dst = (List.range ETH_ALEN).map fun j => n.macs.cell (i * ETH_ALEN + j)
    · rw [if_pos hdst]
      exact congrArg some (decide_eq_true (List.mem_cons.mpr (.inl hdst))).symm
    · rw [if_neg hdst]
      refine hrest.trans (congrArg some (decide_eq_decide.mpr ?_))
      exact ⟨List.mem_cons_of_mem _, fun hmem => (List.mem_cons.mp hmem).resolve_left hdst⟩

/-- A VLAN is refused if it is not allowed. -/
theorem vlanRefused_spec (h : n.Refines f) (ptr : Nat → Byte) :
    ∃ refused, vlanRefused n ptr = some refused ∧ (refused = true ↔ ¬f.AllowsVlan ptr) := by
  unfold vlanRefused NetFilter.AllowsVlan frameVlan
  by_cases htag : frameBytes ptr 12 2 = [0x81, 0x00]
  · have hvid : ∀ x : BitVec 16, (x &&& (0xfff : BitVec 16)).toNat < 0x1000 := by
      intro x
      rw [BitVec.toNat_and]
      exact Nat.lt_succ_of_le Nat.and_le_right
    have hword : vlanWord ((ptr 14 ++ ptr 15) &&& (0xfff : BitVec 16)) < 128 := by
      have := hvid (ptr 14 ++ ptr 15)
      rw [vlanWord, BitVec.toNat_ushiftRight, Nat.shiftRight_eq_div_pow]
      omega
    rw [if_pos htag, if_pos htag]
    dsimp only
    rw [CArray.load_of_lt hword]
    refine ⟨_, rfl, ?_⟩
    rw [decide_eq_true_iff]
    simp only [Option.mem_def, Option.some.injEq, forall_eq', h.vlans _ (hvid _),
      decide_eq_true_iff, not_not]
  · rw [if_neg htag, if_neg htag]
    refine ⟨false, rfl, ?_⟩
    simp

theorem takes_some (l : List (List Byte)) (dst : List Byte) :
    MacTable.Takes (some l) dst ↔ dst ∈ l := by
  simp [MacTable.Takes]

theorem takes_none (dst : List Byte) : MacTable.Takes none dst :=
  fun _ h => absurd h.symm (Option.some_ne_none _)

/-- The device accepts an address as the filter does. -/
theorem receiveFilterMac_spec (h : n.Refines f) (ptr : Nat → Byte) :
    ∃ accepted, receiveFilterMac n ptr = some accepted ∧
      (accepted = true ↔ f.AcceptsMac n.mac n.tables ptr) := by
  obtain ⟨hfirst, hinUse⟩ := h.bounded
  have hint : n.firstMulti.toInt = n.firstMulti.toNat :=
    toInt_of_le (hfirst.trans hinUse) (by decide)
  have hint' : n.inUse.toInt = n.inUse.toNat := toInt_of_le hinUse (by decide)
  have hcount : (n.inUse.toInt - n.firstMulti.toInt).toNat =
      n.inUse.toNat - n.firstMulti.toNat := by omega
  have hnobcast : f.flags VIRTIO_NET_CTRL_RX_MODE_NOBCAST = decide (n.nobcast ≠ 0) :=
    h.flags _ (by decide)
  have hnomulti : f.flags VIRTIO_NET_CTRL_RX_MODE_NOMULTI = decide (n.nomulti ≠ 0) :=
    h.flags _ (by decide)
  have hallmulti : f.flags VIRTIO_NET_CTRL_RX_MODE_ALLMULTI = decide (n.allmulti ≠ 0) :=
    h.flags _ (by decide)
  have hnouni : f.flags VIRTIO_NET_CTRL_RX_MODE_NOUNI = decide (n.nouni ≠ 0) :=
    h.flags _ (by decide)
  have halluni : f.flags VIRTIO_NET_CTRL_RX_MODE_ALLUNI = decide (n.alluni ≠ 0) :=
    h.flags _ (by decide)
  unfold receiveFilterMac NetFilter.AcceptsMac VirtIONet.tables
  rw [hnobcast, hnomulti, hallmulti, hnouni, halluni, hcount, hint, Int.toNat_natCast]
  simp only [decide_eq_false_iff_not, decide_eq_true_iff, not_not]
  -- broadcast and multicast, then unicast, each with its modes before its table
  by_cases hmulti : ptr 0 &&& 1 ≠ 0
  · rw [if_pos hmulti, if_pos hmulti]
    by_cases hbcast : frameBytes ptr 0 ETH_ALEN = List.replicate 6 0xff
    · rw [if_pos hbcast, if_pos hbcast]
      exact ⟨_, rfl, decide_eq_true_iff⟩
    rw [if_neg hbcast, if_neg hbcast]
    by_cases hno : n.nomulti ≠ 0
    · rw [if_pos hno]
      exact ⟨_, rfl, iff_of_false Bool.false_ne_true fun h => hno h.1⟩
    rw [if_neg hno]
    by_cases hall : n.allmulti ≠ 0 ∨ n.multiOverflow = true
    · rw [if_pos hall]
      refine ⟨_, rfl, iff_of_true rfl ⟨not_not.mp hno, hall.imp_right fun hover => ?_⟩⟩
      rw [if_pos hover]
      exact takes_none _
    · rw [if_neg hall, macScan_eq _ _ _ (by omega)]
      obtain ⟨hallmulti, hover⟩ := not_or.mp hall
      refine ⟨_, rfl, ?_⟩
      rw [if_neg hover, takes_some, decide_eq_true_iff]
      exact ⟨fun hmem => ⟨not_not.mp hno, .inr hmem⟩, fun h => h.2.resolve_left hallmulti⟩
  · rw [if_neg hmulti, if_neg hmulti]
    by_cases hno : n.nouni ≠ 0
    · rw [if_pos hno]
      exact ⟨_, rfl, iff_of_false Bool.false_ne_true fun h => hno h.1⟩
    rw [if_neg hno]
    by_cases hall : n.alluni ≠ 0 ∨ n.uniOverflow = true
    · rw [if_pos hall]
      refine ⟨_, rfl, iff_of_true rfl ⟨not_not.mp hno, hall.imp_right fun hover => .inr ?_⟩⟩
      rw [if_pos hover]
      exact takes_none _
    rw [if_neg hall]
    obtain ⟨halluni, hover⟩ := not_or.mp hall
    by_cases hown : frameBytes ptr 0 ETH_ALEN = n.mac
    · rw [if_pos hown]
      exact ⟨_, rfl, iff_of_true rfl ⟨not_not.mp hno, .inr (.inl hown)⟩⟩
    · have hscan : macScan n (frameBytes ptr 0 ETH_ALEN) n.firstMulti.toNat 0 = _ :=
        macScan_eq (frameBytes ptr 0 ETH_ALEN) n.firstMulti.toNat 0 (by omega)
      rw [if_neg hown]
      refine ⟨_, hscan, ?_⟩
      rw [if_neg hover, takes_some, decide_eq_true_iff]
      exact ⟨fun hmem => ⟨not_not.mp hno, .inr (.inr hmem)⟩,
        fun h => (h.2.resolve_left halluni).resolve_left hown⟩

/-- The device accepts a frame as the filter does. -/
theorem receiveFilter_spec (h : n.Refines f) (buf : Nat → Byte) :
    ∃ accepted, receiveFilter n buf = some accepted ∧
      (accepted = true ↔ f.Accepts n.mac n.tables (n.frame buf)) := by
  have hpromisc : f.flags VIRTIO_NET_CTRL_RX_MODE_PROMISC = decide (n.promisc ≠ 0) :=
    h.flags _ (by decide)
  unfold receiveFilter NetFilter.Accepts
  rw [hpromisc, decide_eq_true_iff]
  by_cases hp : n.promisc ≠ 0
  · rw [if_pos hp]
    exact ⟨_, rfl, iff_of_true rfl (.inl hp)⟩
  · obtain ⟨refused, hrefused, hvlan⟩ := vlanRefused_spec h (n.frame buf)
    rw [if_neg hp, hrefused, Option.bind_some]
    cases refused with
    | true =>
      have hout := hvlan.mp rfl
      exact ⟨false, rfl, iff_of_false Bool.false_ne_true fun h =>
        hout (h.resolve_left hp).1⟩
    | false =>
      have hin : f.AllowsVlan (n.frame buf) := by
        by_contra hout
        exact Bool.false_ne_true (hvlan.mpr hout)
      obtain ⟨accepted, haccepted, hmac⟩ := receiveFilterMac_spec h (n.frame buf)
      exact ⟨accepted, haccepted, hmac.trans
        ⟨fun h => .inr ⟨hin, h⟩, fun h => (h.resolve_left hp).2⟩⟩

/-! ### What commands do -/

/-- A function returns something like this, or exits. -/
def Outcome.Gives {α : Type} (Q : α → Prop) : Outcome α → Prop
  | .returned a => Q a
  | .exited => True
  | .overran => False
  | .running => False

/-- The device has the filter after a command. -/
structure VirtIONet.Obeys (n : VirtIONet) (f : NetFilter) (command : Option NetCommand)
    (r : VirtIONet × Byte) : Prop where
  refines : r.1.Refines (f.after command r.2)
  mac : r.1.mac = n.mac
  hasVnetHdr : r.1.hasVnetHdr = n.hasVnetHdr

/-- One mode is set. -/
theorem VirtIONet.Refines.setFlag (h : n.Refines f) {n' : VirtIONet} {cmd on : Byte}
    (hmode : ∀ c, n'.rxMode c = if c = cmd then on else n.rxMode c) (hbounded : n'.Bounded)
    (hvlans : n'.vlans = n.vlans) (htables : n'.tables = n.tables) :
    n'.Refines (f.obey (.rxMode cmd (on ≠ 0))) := by
  refine ⟨hbounded, fun c hc => ?_, fun vid hvid => ?_, fun t ht => htables.trans (h.tables t ht)⟩
  · show Function.update f.flags cmd _ c = _
    rw [hmode, Function.update_apply]
    split_ifs with hcmd
    · rfl
    · exact h.flags c hc
  · rw [hvlans]
    exact h.vlans vid hvid

/-- The device obeys a receive mode. -/
theorem virtioNetHandleRxMode_gives (h : n.Refines f) (cmd : Byte) (outSg : List GuestBuf) :
    (virtioNetHandleRxMode n cmd outSg).Gives (n.Obeys f (rxModeCommand cmd outSg)) := by
  unfold virtioNetHandleRxMode
  split
  · next header data =>
    split
    · exact trivial
    -- one flag for each number of a command
    · have hbounded := h.bounded
      have hset : ∀ {n' : VirtIONet} {c : Byte}, cmd = c →
          (∀ d, n'.rxMode d = if d = c then data.iovBase 0 else n.rxMode d) → n'.Bounded →
          n'.vlans = n.vlans → n'.tables = n.tables → n'.mac = n.mac →
          n'.hasVnetHdr = n.hasVnetHdr →
          n.Obeys f (rxModeCommand cmd [header, data]) (n', VIRTIO_NET_OK) := by
        rintro n' _ rfl hmode hn' hvlans htables hmac hhdr
        exact ⟨h.setFlag hmode hn' hvlans htables, hmac, hhdr⟩
      have hmode : ∀ {n' : VirtIONet} (c : Byte), n'.rxMode c = data.iovBase 0 →
          (∀ d, d ≠ c → n'.rxMode d = n.rxMode d) →
          ∀ d, n'.rxMode d = if d = c then data.iovBase 0 else n.rxMode d := by
        intro n' c hc hother d
        split_ifs with hd
        · rw [hd, hc]
        · exact hother d hd
      dsimp only
      split_ifs with h0 h1 h2 h3 h4 h5
      · exact hset h0 (hmode _ rfl fun d hd => by simp only [VirtIONet.rxMode, if_neg hd])
          ⟨hbounded.first, hbounded.inUse⟩ rfl rfl rfl rfl
      · exact hset h1 (hmode _ rfl fun d hd => by simp only [VirtIONet.rxMode, if_neg hd])
          ⟨hbounded.first, hbounded.inUse⟩ rfl rfl rfl rfl
      · exact hset h2 (hmode _ rfl fun d hd => by simp only [VirtIONet.rxMode, if_neg hd])
          ⟨hbounded.first, hbounded.inUse⟩ rfl rfl rfl rfl
      · exact hset h3 (hmode _ rfl fun d hd => by simp only [VirtIONet.rxMode, if_neg hd])
          ⟨hbounded.first, hbounded.inUse⟩ rfl rfl rfl rfl
      · exact hset h4 (hmode _ rfl fun d hd => by simp only [VirtIONet.rxMode, if_neg hd])
          ⟨hbounded.first, hbounded.inUse⟩ rfl rfl rfl rfl
      · exact hset h5 (hmode _ rfl fun d hd => by simp only [VirtIONet.rxMode, if_neg hd])
          ⟨hbounded.first, hbounded.inUse⟩ rfl rfl rfl rfl
      · exact ⟨h, rfl, rfl⟩
  · exact trivial

/-! ### VLANs -/

theorem vlanMask_eq (vid : BitVec 16) : vlanMask vid = BitVec.twoPow 32 (vid.toNat % 32) := by
  have hmod : (vid &&& (0x1f : BitVec 16)).toNat = vid.toNat % 32 := by
    rw [BitVec.toNat_and]
    exact Nat.and_two_pow_sub_one_eq_mod vid.toNat 5
  rw [vlanMask, hmod, BitVec.twoPow]
  rfl

theorem and_vlanMask (x : BitVec 32) (vid : BitVec 16) :
    decide (x &&& vlanMask vid ≠ 0) = x.getLsbD (vid.toNat % 32) := by
  have hlt : vid.toNat % 32 < 32 := Nat.mod_lt _ (by decide)
  rw [vlanMask_eq, BitVec.and_twoPow]
  cases hbit : x.getLsbD (vid.toNat % 32) with
  | true =>
    refine decide_eq_true fun hzero => ?_
    have := congrArg (fun y : BitVec 32 => y.getLsbD (vid.toNat % 32)) hzero
    simp [hlt] at this
  | false => exact decide_eq_false fun hne => hne rfl

theorem vlanWord_eq (vid : BitVec 16) : vlanWord vid = vid.toNat / 32 := by
  rw [vlanWord, BitVec.toNat_ushiftRight, Nat.shiftRight_eq_div_pow]

/-- The bit of one VLAN is changed. -/
theorem VirtIONet.Refines.setVlan (h : n.Refines f) {vid : BitVec 16} {allowed : Bool}
    {word : BitVec 32} {vlans : CArray (BitVec 32) 128}
    (hword : ∀ i, word.getLsbD i =
      if i = vid.toNat % 32 then allowed else (n.vlans.cell (vlanWord vid)).getLsbD i)
    (hstore : n.vlans.store (vlanWord vid) word = some vlans) :
    VirtIONet.Refines { n with vlans := vlans } (f.obey (.vlan vid.toNat allowed)) := by
  refine ⟨⟨h.bounded.first, h.bounded.inUse⟩, h.flags, fun vid' hvid' => ?_, h.tables⟩
  have hvlans := h.vlans vid' hvid'
  rw [and_vlanMask] at hvlans
  show Function.update f.vlans vid.toNat allowed vid'.toNat = _
  unfold CArray.store at hstore
  split_ifs at hstore
  cases hstore
  rw [and_vlanMask, Function.update_apply, hvlans]
  show _ = BitVec.getLsbD (if vlanWord vid' = vlanWord vid then word else _) _
  rw [vlanWord_eq, vlanWord_eq] at *
  by_cases hdiv : vid'.toNat / 32 = vid.toNat / 32
  · rw [if_pos hdiv, hword, hdiv]
    by_cases hmod : vid'.toNat % 32 = vid.toNat % 32
    · rw [if_pos (by omega), if_pos hmod]
    · rw [if_neg (by omega), if_neg hmod]
  · rw [if_neg hdiv, if_neg fun heq => hdiv (by rw [heq])]

/-- The device obeys a VLAN. -/
theorem virtioNetHandleVlanTable_gives (h : n.Refines f) (cmd : Byte) (outSg : List GuestBuf) :
    (virtioNetHandleVlanTable n cmd outSg).Gives (n.Obeys f (vlanCommand cmd outSg)) := by
  unfold virtioNetHandleVlanTable
  split
  · next header data =>
    by_cases hlen : data.iovLen ≠ 2
    · rw [if_pos hlen]
      exact ⟨h, rfl, rfl⟩
    rw [if_neg hlen]
    dsimp only
    by_cases hvid : MAX_VLAN ≤ lduwLe data.iovBase
    · rw [if_pos hvid]
      exact ⟨h, rfl, rfl⟩
    rw [if_neg hvid]
    have hword : vlanWord (lduwLe data.iovBase) < 128 := by
      have hlt : (lduwLe data.iovBase).toNat < 0x1000 := BitVec.not_le.mp hvid
      rw [vlanWord_eq]
      omega
    have hstore : ∀ word, ∃ vlans, n.vlans.store (vlanWord (lduwLe data.iovBase)) word =
        some vlans := fun word => ⟨_, if_pos hword⟩
    have hbit : ∀ i, (vlanMask (lduwLe data.iovBase)).getLsbD i =
        decide (i = (lduwLe data.iovBase).toNat % 32) := by
      intro i
      have hlt : (lduwLe data.iovBase).toNat % 32 < 32 := Nat.mod_lt _ (by decide)
      rw [vlanMask_eq, BitVec.getLsbD_twoPow, decide_eq_true hlt, Bool.true_and]
      exact decide_eq_decide.mpr eq_comm
    rw [CArray.load_of_lt hword, Option.bind_some, Option.bind_some]
    -- the bit of the VLAN is set or cleared, the others stay
    by_cases hadd : cmd = VIRTIO_NET_CTRL_VLAN_ADD
    · obtain ⟨vlans, hvlans⟩ := hstore (n.vlans.cell (vlanWord (lduwLe data.iovBase)) |||
        vlanMask (lduwLe data.iovBase))
      rw [if_pos hadd, hvlans]
      refine ⟨?_, rfl, rfl⟩
      have hcommand : vlanCommand cmd [header, data] =
          some (.vlan (lduwLe data.iovBase).toNat true) := by
        rw [vlanCommand, decide_eq_true hadd]
      rw [hcommand]
      refine h.setVlan (fun i => ?_) hvlans
      rw [BitVec.getLsbD_or, hbit]
      split_ifs with hi
      · rw [decide_eq_true hi, Bool.or_true]
      · rw [decide_eq_false hi, Bool.or_false]
    rw [if_neg hadd]
    by_cases hdel : cmd = VIRTIO_NET_CTRL_VLAN_DEL
    · obtain ⟨vlans, hvlans⟩ := hstore (n.vlans.cell (vlanWord (lduwLe data.iovBase)) &&&
        ~~~vlanMask (lduwLe data.iovBase))
      rw [if_pos hdel, hvlans]
      refine ⟨?_, rfl, rfl⟩
      have hcommand : vlanCommand cmd [header, data] =
          some (.vlan (lduwLe data.iovBase).toNat false) := by
        rw [vlanCommand, decide_eq_false hadd]
      rw [hcommand]
      refine h.setVlan (fun i => ?_) hvlans
      rw [BitVec.getLsbD_and, BitVec.getLsbD_not, hbit]
      split_ifs with hi
      · rw [decide_eq_true hi, Bool.not_true, Bool.and_false, Bool.and_false]
      · by_cases hi32 : i < 32
        · rw [decide_eq_false hi, decide_eq_true hi32, Bool.not_false, Bool.and_true, Bool.and_true]
        · rw [BitVec.getLsbD_of_ge _ _ (Nat.le_of_not_lt hi32), Bool.false_and]
    · rw [if_neg hdel]
      exact ⟨h, rfl, rfl⟩
  · next hshape =>
    have hcommand : vlanCommand cmd outSg = none := by
      unfold vlanCommand
      split
      · next header data => exact absurd rfl (hshape header data)
      · rfl
    rw [hcommand]
    exact ⟨h, rfl, rfl⟩

/-! ### Addresses -/

theorem macBytes_eq {entries : BitVec 32} (h : entries.toNat ≤ MAC_TABLE_ENTRIES) :
    macBytes entries = entries.toNat * ETH_ALEN := by
  unfold MAC_TABLE_ENTRIES at h
  rw [macBytes, BitVec.toNat_mul]
  exact Nat.mod_eq_of_lt (show entries.toNat * 6 < 2 ^ 32 by omega)

/-- The addresses of a buffer are in the table, and those in front of them stay. -/
theorem addMacs_spec (n : VirtIONet) (buf : GuestBuf) {place : Nat}
    (h : place + macCount buf ≤ MAC_TABLE_ENTRIES) :
    ∃ macs, n.addMacs place buf (ldlLe buf.iovBase) = some { n with
        macs := macs
        inUse := n.inUse + ldlLe buf.iovBase } ∧
      macSlots macs place (macCount buf) = macList buf ∧
      ∀ i count, i + count ≤ place → macSlots macs i count = macSlots n.macs i count := by
  have hentries : (ldlLe buf.iovBase).toNat ≤ MAC_TABLE_ENTRIES :=
    (Nat.le_add_left _ _).trans h
  have hroom : place * ETH_ALEN + macBytes (ldlLe buf.iovBase) ≤ MAC_TABLE_ENTRIES * ETH_ALEN := by
    rw [macBytes_eq hentries, ← Nat.add_mul]
    exact Nat.mul_le_mul_right _ h
  have hbytes : macBytes (ldlLe buf.iovBase) = macCount buf * 6 := macBytes_eq hentries
  rw [VirtIONet.addMacs, macData, CArray.copy_map_range _ hroom]
  refine ⟨_, rfl, ?_, fun i count hi => ?_⟩
  · refine List.ext_getElem (by simp [macSlots, macList]) fun k hk hk' => ?_
    have hlt : k < macCount buf := by simpa [macSlots] using hk
    simp only [macSlots, macList, List.getElem_map, List.getElem_range', List.getElem_range,
      ETH_ALEN, hbytes]
    refine List.map_congr_left fun j hj => ?_
    have hj := List.mem_range.mp hj
    rw [if_pos (by omega)]
    exact congrArg buf.iovBase (by omega)
  · refine List.map_congr_left fun k hk => List.map_congr_left fun j hj => if_neg ?_
    have hk := List.mem_range'_1.mp hk
    have hj := List.mem_range.mp hj
    unfold ETH_ALEN at hj ⊢
    omega

/-- The first list is the unicast table. -/
theorem setUni_spec (n : VirtIONet) (buf : GuestBuf) (hempty : n.inUse = 0)
    (hover : n.uniOverflow = false) :
    ∃ macs inUse full, n.setUni buf (ldlLe buf.iovBase) = some { n with
        macs := macs
        inUse := inUse
        uniOverflow := full } ∧
      inUse.toNat = (if macCount buf ≤ MAC_TABLE_ENTRIES then macCount buf else 0) ∧
      (if full then none else some (macSlots macs 0 inUse.toNat)) =
        (if macCount buf ≤ MAC_TABLE_ENTRIES then some (macList buf) else none) := by
  unfold VirtIONet.setUni
  by_cases hfits : macCount buf ≤ MAC_TABLE_ENTRIES
  · obtain ⟨macs, hmacs, hslots, -⟩ := addMacs_spec n buf
      (Nat.le_trans (Nat.le_of_eq (Nat.zero_add _)) hfits)
    refine ⟨macs, ldlLe buf.iovBase, n.uniOverflow, ?_, (if_pos hfits).symm, ?_⟩
    · refine (if_pos hfits).trans (hmacs.trans ?_)
      rw [hempty]
      exact congrArg (fun x => some { n with
        macs := macs
        inUse := x }) (BitVec.zero_add _)
    · rw [hover, if_neg Bool.false_ne_true, if_pos hfits]
      exact congrArg some hslots
  · refine ⟨n.macs, n.inUse, true, if_neg hfits, ?_, ?_⟩
    · rw [if_neg hfits, hempty]
      rfl
    · rw [if_neg hfits]
      rfl

/-- Only a sum that wraps is small though it should not be, and its buffer is of nearly 4 GiB. -/
theorem sum_of_wrapped {a c len : Nat} (ha : a ≤ 64) (hc : c < 0x100000000)
    (hlen : len < 0xfffffe84) (hshort : 4 + c * 6 % 0x100000000 ≤ len)
    (hsum : (a + c) % 0x100000000 ≤ 64) : a + c ≤ 64 := by
  by_contra hover
  have hwraps : 0x100000000 ≤ a + c := by
    by_contra hsmall
    rw [Nat.mod_eq_of_lt (by omega)] at hsum
    exact hover hsum
  have hlow : 0xffffffc0 ≤ c := by omega
  have hmod : c * 6 % 0x100000000 = c * 6 - 5 * 0x100000000 := by omega
  omega

/-- The check leaves room for the multicast addresses. -/
theorem multi_fits {inUse : BitVec 32} {buf : GuestBuf} (hinUse : inUse.toNat ≤ MAC_TABLE_ENTRIES)
    (hlen : buf.iovLen < 0xfffffe84) (hshort : ¬macShort buf (ldlLe buf.iovBase))
    (hsum : (inUse + ldlLe buf.iovBase).toNat ≤ MAC_TABLE_ENTRIES) :
    inUse.toNat + macCount buf ≤ MAC_TABLE_ENTRIES := by
  rw [BitVec.toNat_add] at hsum
  have hbytes : macBytes (ldlLe buf.iovBase) = macCount buf * 6 % 0x100000000 :=
    BitVec.toNat_mul _ _
  rw [macShort, hbytes] at hshort
  exact sum_of_wrapped hinUse (ldlLe buf.iovBase).isLt hlen (Nat.le_of_not_lt hshort) hsum

/-- The second list is the multicast table. -/
theorem setMulti_spec (n : VirtIONet) (buf : GuestBuf) (hinUse : n.inUse.toNat ≤ MAC_TABLE_ENTRIES)
    (hlen : buf.iovLen < 0xfffffe84) (hshort : ¬macShort buf (ldlLe buf.iovBase))
    (hover : n.multiOverflow = false) :
    ∃ macs inUse full, n.setMulti buf (ldlLe buf.iovBase) = some { n with
        macs := macs
        inUse := inUse
        multiOverflow := full } ∧
      n.inUse.toNat ≤ inUse.toNat ∧ inUse.toNat ≤ MAC_TABLE_ENTRIES ∧
      (if full then none
        else some (macSlots macs n.inUse.toNat (inUse.toNat - n.inUse.toNat))) =
        (if macCount buf = 0 ∨ n.inUse.toNat + macCount buf ≤ MAC_TABLE_ENTRIES then
          some (macList buf) else none) ∧
      ∀ i count, i + count ≤ n.inUse.toNat → macSlots macs i count = macSlots n.macs i count := by
  unfold VirtIONet.setMulti
  by_cases hzero : ldlLe buf.iovBase = 0
  · have hcount : macCount buf = 0 := congrArg BitVec.toNat hzero
    refine ⟨n.macs, n.inUse, n.multiOverflow, if_neg (not_not.mpr hzero), Nat.le_refl _, hinUse, ?_,
      fun _ _ _ => rfl⟩
    rw [hover, if_neg Bool.false_ne_true, if_pos (.inl hcount), Nat.sub_self, macList, hcount]
    rfl
  have hcount : macCount buf ≠ 0 := fun h => hzero (BitVec.eq_of_toNat_eq h)
  rw [if_pos hzero]
  -- more addresses than fit are an overflow, and none is kept
  by_cases hsum : (n.inUse + ldlLe buf.iovBase).toNat ≤ MAC_TABLE_ENTRIES
  · have hfits := multi_fits hinUse hlen hshort hsum
    have hnat : (n.inUse + ldlLe buf.iovBase).toNat = n.inUse.toNat + macCount buf := by
      rw [BitVec.toNat_add]
      exact Nat.mod_eq_of_lt (Nat.lt_of_le_of_lt hfits (by decide))
    obtain ⟨macs, hmacs, hslots, hfront⟩ := addMacs_spec n buf hfits
    refine ⟨macs, n.inUse + ldlLe buf.iovBase, n.multiOverflow, (if_pos hsum).trans hmacs, ?_, hsum,
      ?_, hfront⟩
    · rw [hnat]
      exact Nat.le_add_right _ _
    · rw [hover, if_neg Bool.false_ne_true, if_pos (.inr hfits), hnat, Nat.add_sub_cancel_left]
      exact congrArg some hslots
  · refine ⟨n.macs, n.inUse, true, if_neg hsum, Nat.le_refl _, hinUse, ?_, fun _ _ _ => rfl⟩
    rw [if_pos rfl, if_neg]
    rintro (hnone | hfits)
    · exact hcount hnone
    · refine hsum ?_
      rw [BitVec.toNat_add]
      exact (Nat.mod_le _ _).trans hfits

/-- A buffer is not of nearly 4 GiB. -/
def GuestBuf.Small (buf : GuestBuf) : Prop := buf.iovLen < 0xfffffe84

instance guestBuf_small_decidable (buf : GuestBuf) : Decidable buf.Small :=
  inferInstanceAs (Decidable (_ < _))

theorem macBuffers_cases (outSg : List GuestBuf) :
    (∃ header uni multi, outSg = [header, uni, multi]) ∨
      ∀ (n : VirtIONet) (cmd : Byte),
        virtioNetHandleMac n cmd outSg = .returned (n, VIRTIO_NET_ERR) ∧
          macCommand cmd outSg = none := by
  obtain _ | ⟨header, _ | ⟨uni, _ | ⟨multi, _ | ⟨more, rest⟩⟩⟩⟩ := outSg
  case cons.cons.cons.nil => exact .inl ⟨header, uni, multi, rfl⟩
  all_goals exact .inr fun _ _ => ⟨rfl, rfl⟩

/-- The device obeys a table of addresses. -/
theorem virtioNetHandleMac_gives (h : n.Refines f) (cmd : Byte) {outSg : List GuestBuf}
    (hsmall : ∀ buf ∈ outSg, buf.Small) :
    (virtioNetHandleMac n cmd outSg).Gives (n.Obeys f (macCommand cmd outSg)) := by
  obtain ⟨header, uni, multi, rfl⟩ | hshape := macBuffers_cases outSg
  · rw [virtioNetHandleMac, macCommand]
    dsimp only
    by_cases hshape : cmd ≠ VIRTIO_NET_CTRL_MAC_TABLE_SET ∨ uni.iovLen < 4 ∨ multi.iovLen < 4
    · rw [if_pos hshape, if_pos hshape]
      exact ⟨h, rfl, rfl⟩
    rw [if_neg hshape, if_neg hshape]
    by_cases huni : macShort uni (ldlLe uni.iovBase)
    · rw [if_pos huni]
      exact ⟨⟨⟨Nat.le_refl _, Nat.zero_le _⟩, h.flags, h.vlans,
        fun _ ht => absurd ht.symm (Option.some_ne_none _)⟩, rfl, rfl⟩
    rw [if_neg huni]
    obtain ⟨macs₁, inUse₁, full₁, hset₁, hinUse₁, htable₁⟩ := setUni_spec n.clearMacs uni rfl rfl
    rw [hset₁, Option.bind_some]
    have hle₁ : inUse₁.toNat ≤ MAC_TABLE_ENTRIES := by
      rw [hinUse₁]
      split_ifs with hfits
      · exact hfits
      · exact Nat.zero_le _
    by_cases hmulti : macShort multi (ldlLe multi.iovBase)
    · rw [if_pos hmulti]
      exact ⟨⟨⟨Nat.le_refl _, hle₁⟩, h.flags, h.vlans,
        fun _ ht => absurd ht.symm (Option.some_ne_none _)⟩, rfl, rfl⟩
    rw [if_neg hmulti]
    have hlast : multi.Small := hsmall multi (by simp)
    obtain ⟨macs₂, inUse₂, full₂, hset₂, hfirst, hle₂, htable₂, hfront⟩ := setMulti_spec
      { n.clearMacs with
        macs := macs₁
        inUse := inUse₁
        uniOverflow := full₁
        firstMulti := inUse₁ } multi hle₁ hlast hmulti rfl
    rw [hset₂]
    refine ⟨⟨⟨hfirst, hle₂⟩, h.flags, h.vlans, ?_⟩, rfl, rfl⟩
    rintro t ht
    obtain rfl : macTables uni multi = t := Option.some.inj ht
    -- the second list does not touch the first one
    have hkeep := hfront 0 inUse₁.toNat (Nat.le_of_eq (Nat.zero_add _))
    refine Prod.ext ?_ ?_
    · exact (congrArg (fun l => if full₁ then none else some l) hkeep).trans htable₁
    · refine htable₂.trans ?_
      rw [hinUse₁]
      rfl
  · rw [(hshape n cmd).1, (hshape n cmd).2]
    exact ⟨h, rfl, rfl⟩

/-- An element of the control queue. -/
theorem virtioNetHandleCtrl_gives {w : Nat} (h : n.Refines f) (status : Byte)
    {elem : VirtQueueElement w (Nat → Byte)} (hsmall : ∀ buf ∈ elem.outSg, GuestBuf.Small buf) :
    (virtioNetHandleCtrl n status elem).Gives (n.Obeys f (netCommand elem.outSg)) := by
  cases hout : elem.outSg with
  | nil =>
    simp only [virtioNetHandleCtrl, hout]
    exact trivial
  | cons header rest =>
    cases hin : elem.inSg.getLast? with
    | none =>
      simp only [virtioNetHandleCtrl, hout, hin]
      exact trivial
    | some last =>
      rw [hout] at hsmall
      simp only [virtioNetHandleCtrl, netCommand, hout, hin]
      by_cases hlen : header.iovLen < 2 ∨ last.iovLen < 1
      · rw [if_pos hlen]
        exact trivial
      rw [if_neg hlen]
      split_ifs
      · exact virtioNetHandleRxMode_gives h _ _
      · exact virtioNetHandleMac_gives h _ hsmall
      · exact virtioNetHandleVlanTable_gives h _ _
      · exact ⟨h, rfl, rfl⟩

end

/-! ### Runs -/

/-- The device, the filter as the guest sees it, and the status of the last element; or QEMU has
    ended. -/
inductive VirtioNetRun
  | running (n : VirtIONet) (f : NetFilter) (status : Byte)
  | exited

/-- `virtio_net_handle_ctrl` is called, and then takes elements from the control queue. -/
inductive NetCtrlOp (w : Nat)
  | handleCtrl
  | element (elem : VirtQueueElement w (Nat → Byte))

/-- `none` is an access behind the end of an array. -/
def VirtioNetRun.exec {w : Nat} : VirtioNetRun → NetCtrlOp w → Option VirtioNetRun
  | .running n f _, .handleCtrl => some (.running n f VIRTIO_NET_ERR)
  | .running n f status, .element elem =>
    match virtioNetHandleCtrl n status elem with
    | .returned (n', status') =>
      some (.running n' (f.after (netCommand elem.outSg) status') status')
    | .exited => some .exited
    | .overran => none
    | .running => none
  | .exited, _ => some .exited

/-- The buffers of an element are not of nearly 4 GiB. -/
def NetCtrlOp.Small {w : Nat} : NetCtrlOp w → Prop
  | .handleCtrl => True
  | .element elem => ∀ buf ∈ elem.outSg, GuestBuf.Small buf

instance netCtrlOp_small_decidable {w : Nat} : ∀ op : NetCtrlOp w, Decidable op.Small
  | .handleCtrl => isTrue trivial
  | .element elem => inferInstanceAs (Decidable (∀ _ ∈ elem.outSg, GuestBuf.Small _))

/-- The filter of a device with an address is as it should be. -/
structure VirtIONet.Filters (n : VirtIONet) (mac : List Byte) (f : NetFilter) : Prop where
  first_nonneg : 0 ≤ n.firstMulti.toInt
  first_le : n.firstMulti.toInt ≤ n.inUse.toInt
  inUse_le : n.inUse.toInt ≤ MAC_TABLE_ENTRIES
  /-- A `MAC_TABLE_SET` without the right buffers fails and changes nothing. -/
  refuses : ∀ cmd outSg, macCommand cmd outSg = none →
    virtioNetHandleMac n cmd outSg = .returned (n, VIRTIO_NET_ERR)
  /-- What is accepted, if the last `MAC_TABLE_SET` that has changed anything did not fail. -/
  accepts : ∀ t ∈ f.tables, ∀ buf, ∃ accepted, receiveFilter n buf = some accepted ∧
    (accepted = true ↔ f.Accepts mac t (n.frame buf))

/-- The device accepts what the driver asked for. -/
def VirtioNetRun.Right (mac : List Byte) : VirtioNetRun → Prop
  | .running n f _ => n.Filters mac f
  | .exited => True

/-- Buffers that spell no table are refused. -/
theorem virtioNetHandleMac_refuses (n : VirtIONet) {cmd : Byte} {outSg : List GuestBuf}
    (h : macCommand cmd outSg = none) :
    virtioNetHandleMac n cmd outSg = .returned (n, VIRTIO_NET_ERR) := by
  obtain ⟨header, uni, multi, rfl⟩ | hshape := macBuffers_cases outSg
  · rw [macCommand] at h
    rw [virtioNetHandleMac]
    by_cases hshape : cmd ≠ VIRTIO_NET_CTRL_MAC_TABLE_SET ∨ uni.iovLen < 4 ∨ multi.iovLen < 4
    · exact if_pos hshape
    · rw [if_neg hshape] at h
      cases h
  · exact (hshape n cmd).1

/-- A device that refines the filter filters as it does. -/
theorem VirtIONet.Refines.filters {n : VirtIONet} {f : NetFilter} {mac : List Byte}
    (h : n.Refines f) (hmac : n.mac = mac) : n.Filters mac f := by
  obtain ⟨hfirst, hinUse⟩ := h.bounded
  have hint : n.firstMulti.toInt = n.firstMulti.toNat :=
    toInt_of_le (hfirst.trans hinUse) (by decide)
  have hint' : n.inUse.toInt = n.inUse.toNat := toInt_of_le hinUse (by decide)
  refine ⟨by omega, by omega, by omega, fun _ _ => virtioNetHandleMac_refuses n, fun t ht buf => ?_⟩
  rw [← hmac, ← h.tables t ht]
  exact receiveFilter_spec h buf

/-- The device refines the filter. -/
def VirtioNetRun.Refines (mac : List Byte) : VirtioNetRun → Prop
  | .running n f _ => n.Refines f ∧ n.mac = mac
  | .exited => True

/-- One step keeps it so. -/
theorem VirtioNetRun.exec_refines {w : Nat} {mac : List Byte} {m : VirtioNetRun}
    (h : m.Refines mac) {op : NetCtrlOp w} (hsmall : op.Small) :
    ∃ m', m.exec op = some m' ∧ m'.Refines mac := by
  cases m with
  | exited => exact ⟨.exited, rfl, trivial⟩
  | running n f status =>
    cases op with
    | handleCtrl => exact ⟨_, rfl, h⟩
    | element elem =>
      have hgives := virtioNetHandleCtrl_gives h.1 status hsmall
      cases hctrl : virtioNetHandleCtrl n status elem with
      | returned r =>
        rw [hctrl] at hgives
        simp only [VirtioNetRun.exec, hctrl]
        exact ⟨_, rfl, hgives.refines, hgives.mac.trans h.2⟩
      | exited =>
        simp only [VirtioNetRun.exec, hctrl]
        exact ⟨.exited, rfl, trivial⟩
      | overran =>
        rw [hctrl] at hgives
        exact hgives.elim
      | running =>
        rw [hctrl] at hgives
        exact hgives.elim

/-- The device at first. -/
def VirtioNetRun.start (mac : List Byte) (hasVnetHdr : Bool) : VirtioNetRun :=
  .running (virtioNetInit mac hasVnetHdr) .start VIRTIO_NET_ERR

/-- A new device starts so. -/
theorem virtioNetInit_refines (mac : List Byte) (hasVnetHdr : Bool) :
    (virtioNetInit mac hasVnetHdr).Refines .start := by
  refine ⟨⟨Nat.le_refl _, Nat.zero_le _⟩, fun cmd hcmd => ?_, fun vid _ => ?_, ?_⟩
  · show decide (cmd = VIRTIO_NET_CTRL_RX_MODE_PROMISC) = decide _
    unfold VirtIONet.rxMode virtioNetInit
    split_ifs with h
    · exact (decide_eq_true h).trans (decide_eq_true (by decide : (1 : Byte) ≠ 0)).symm
    all_goals exact (decide_eq_false h).trans (decide_eq_false fun hne => hne rfl).symm
  · exact (decide_eq_false fun hne => hne BitVec.zero_and).symm
  · rintro t ht
    obtain rfl := Option.some.inj ht
    rfl

/-- **The receive filter.**  In every run of control commands whose buffers are not of nearly 4 GiB,
    however they are divided over the calls of `virtio_net_handle_ctrl`, no access is behind the end
    of an array, the bounds of the table hold, and the packets that are accepted are those the
    filter accepts as the guest sees it. -/
theorem virtio_net_filter {w : Nat} (mac : List Byte) (hasVnetHdr : Bool)
    (ops : List (NetCtrlOp w)) (hsmall : ∀ op ∈ ops, op.Small) :
    ∃ m, runFrom VirtioNetRun.exec (.start mac hasVnetHdr) ops = some m ∧ m.Right mac := by
  obtain ⟨m, hrun, hrefines⟩ := runFrom_invariant (I := VirtioNetRun.Refines mac)
    (P := fun _ (op : NetCtrlOp w) => op.Small)
    (fun _ _ h hP => VirtioNetRun.exec_refines h hP) (s := .start mac hasVnetHdr)
    ⟨virtioNetInit_refines mac hasVnetHdr, rfl⟩ (StepsMeet.of_mem _ hsmall)
  refine ⟨m, hrun, ?_⟩
  cases m with
  | running n f status => exact hrefines.1.filters hrefines.2
  | exited => exact trivial

/-- A buffer with these bytes. -/
def guestBuf (bytes : List Byte) : GuestBuf := ⟨fun i => bytes.getD i 0, bytes.length⟩

/-- A command with its buffers, and one for the status. -/
def netElement (data : List (List Byte)) (h : data.length ≤ VIRTQUEUE_MAX_SIZE) :
    VirtQueueElement 32 (Nat → Byte) :=
  ⟨0, [0], [guestBuf [0]], data.map guestBuf, by decide, by rwa [List.length_map]⟩

/-- Not all packets are accepted any more. -/
def promiscOff : NetCtrlOp 32 := .element (netElement [[0, 0], [0]] (by decide))

/-- One unicast and one multicast address. -/
def oneEach : NetCtrlOp 32 := .element
  (netElement [[1, 0], [1, 0, 0, 0, 2, 0, 0, 0, 0, 1], [1, 0, 0, 0, 3, 0, 0, 0, 0, 2]] (by decide))

/-- Promiscuous mode off, and one address of each kind. -/
theorem virtio_net_filter_set :
    ∃ m, runFrom VirtioNetRun.exec (.start [2, 0, 0, 0, 0, 0] true)
        [.handleCtrl, promiscOff, oneEach] = some m ∧ m.Right [2, 0, 0, 0, 0, 0] :=
  virtio_net_filter _ _ [.handleCtrl, promiscOff, oneEach] (by decide)

/-- A unicast packet that is accepted need not be for an address of the table: the device's own is
    accepted though no address was set. -/
theorem virtio_net_own_address :
    ¬∀ (mac : List Byte) (ops : List (NetCtrlOp 32)) (n : VirtIONet) (f : NetFilter)
      (status : Byte),
      runFrom VirtioNetRun.exec (.start mac false) ops = some (.running n f status) →
      f.flags VIRTIO_NET_CTRL_RX_MODE_PROMISC = false → ∀ t ∈ f.tables, ∀ buf,
      f.AllowsVlan (n.frame buf) → n.frame buf 0 &&& 1 = 0 →
      f.flags VIRTIO_NET_CTRL_RX_MODE_ALLUNI = false → receiveFilter n buf = some true →
      t.1.Takes (frameBytes (n.frame buf) 0 ETH_ALEN) := by
  intro h
  have htakes : MacTable.Takes (some []) _ := h [2, 0, 0, 0, 0, 0] [promiscOff] _ _ _ rfl rfl _ rfl
    (guestBuf [2, 0, 0, 0, 0, 0]).iovBase (fun vid hvid => by cases hvid) rfl rfl rfl
  exact List.not_mem_nil ((takes_some [] _).mp htakes)

end Qemu.Hw
