import Qemu.Hw.Otg

namespace Qemu.Hw

open Lib

/-!
# The packets that the USB OTG controller receives

* `OtgEvent` — what happens to packets: one arrives, an endpoint takes it, a setup packet is
  written; `OtgOp.events` — what of this an operation does;
* `Otg.ReceiveFits`, `OtgOp.Fits` — packets fit the buffers and arrive one by one, none while the
  first endpoint is enabled, and no reset comes while one is kept;
* `Otg.Accounts` — every packet that arrived was taken, or is kept;
* `otg_packets` — this holds in runs of such operations.

A packet that arrives is kept, or taken at once; a packet that is kept is taken when an endpoint is
enabled.  Both end in `otgDataRx`.
-/

attribute [local instance] otgEps_neZero

/-- An endpoint takes a packet: it is written if there is room for it, and else dropped. -/
structure OtgTaken where
  packet : List Byte
  ep : Fin 16
  enabled : Bool
  endPoint : OtgEndPoint

/-- A packet arrives or is taken, or a setup packet is handed over. -/
inductive OtgEvent
  | arrived (packet : List Byte)
  | taken (t : OtgTaken)
  | setup (addr : BitVec 32) (packet : List Byte)

/-- An endpoint has room for a packet. -/
def OtgTaken.written (t : OtgTaken) : Bool :=
  t.packet.length ≤ t.endPoint.length

/-- Memory after an event: a packet is written as a whole to the address of the endpoint. -/
def OtgEvent.apply (mem : Nat → Byte) : OtgEvent → Nat → Byte
  | .arrived _ => mem
  | .taken t => if t.written then storeAt mem t.endPoint.dmaAddr.toNat t.packet else mem
  | .setup addr packet => storeAt mem addr.toNat packet

/-- The packet that arrives. -/
def OtgEvent.arrival : OtgEvent → List (List Byte)
  | .arrived packet => [packet]
  | _ => []

/-- The packet that is taken. -/
def OtgEvent.taking : OtgEvent → List (List Byte)
  | .taken t => [t.packet]
  | _ => []

/-- The packet that is kept. -/
def Otg.kept (s : Otg) : List (List Byte) :=
  if s.bufFull then [s.buf] else []

/-! ### Events -/

/-- The endpoint is enabled. -/
def Otg.enabled (s : Otg) (dir : OtgDir) (n : Fin 16) : Bool :=
  (s.ep dir n).ctrl &&& OTG_EP_ENABLE != 0

/-- A setup packet is handed over if the control endpoint is enabled. -/
def otgSetupEvents (s : Otg) (packet : List Byte) : List OtgEvent :=
  if s.enabled .dirOut 0 then [.setup (s.ep .dirOut 0).dmaAddr packet] else []

/-- What the state machine hands over. -/
def otgActEvents (s : Otg) : List OtgEvent :=
  match s.state with
  | .setConfigS => otgSetupEvents s otgSetupConfig
  | .setIfaceS => otgSetupEvents s otgSetupIface
  | _ => []

/-- A packet arrives, and the first endpoint that is enabled takes it. -/
def otgReceiveEvents (s : Otg) (packet : List Byte) : List OtgEvent :=
  .arrived packet ::
    match (List.finRange 16).find? fun n => s.enabled .dirOut n with
    | some n => [.taken ⟨packet, n, s.enabled .dirOut n, s.ep .dirOut n⟩]
    | none => []

/-- The controller when an endpoint has sent its packet. -/
def otgSent (s : Otg) (n : Fin 16) : Otg :=
  let e := s.ep .dirIn n
  { s with sent := s.sent ++ [bytesAt s.mem e.dmaAddr.toNat e.length] }

/-- A write of the control register of an endpoint. -/
def otgCtrlEvents (s : Otg) (dir : OtgDir) (n : Fin 16) (val : BitVec 32)
    (arrivals : List (List Byte)) : List OtgEvent :=
  if val &&& ~~~OTG_EP_DISABLE &&& OTG_EP_ENABLE != 0 then
    let s := otgEpDisable s dir n val
    otgActEvents s ++
      match dir with
      | .dirIn =>
        if n = 0 then [] else runLog otgReceive otgReceiveEvents (otgSent (otgAct s) n) arrivals
      | .dirOut =>
        if n ≠ 0 ∧ s.bufFull then
          [.taken ⟨s.buf, n, val &&& OTG_EP_ENABLE != 0, s.ep .dirOut n⟩]
        else []
  else []

/-- The endpoint whose registers are at an address. -/
def otgEpAt (first addr : Nat) (h : first ≤ addr ∧ addr ≤ first + 0x1FC) : Fin 16 :=
  ⟨(addr - first) / 32, by omega⟩

/-- The events of a write. -/
def otgWriteEvents (s : Otg) (addr : Nat) (val : BitVec 32) (arrivals : List (List Byte)) :
    List OtgEvent :=
  if h : 0x900 ≤ addr ∧ addr ≤ 0xAFC then
    if (addr - 0x900) % 32 = 0 then
      otgCtrlEvents s .dirIn (otgEpAt 0x900 addr h) val arrivals
    else []
  else if h : 0xB00 ≤ addr ∧ addr ≤ 0xCFC then
    if (addr - 0xB00) % 32 = 0 then
      otgCtrlEvents s .dirOut (otgEpAt 0xB00 addr h) val arrivals
    else []
  else if addr = 0x14 ∧ val &&& ~~~otgGintFixed = USB_INT_ENUMDONE then
    otgActEvents { s with state := .setConfigS }
  else []

/-- The events of an operation. -/
def OtgOp.events (s : Otg) : OtgOp → List OtgEvent
  | .write addr val arrivals => otgWriteEvents s addr val arrivals
  | .receive packet => otgReceiveEvents s packet

/-! ### The condition -/

/-- A packet may arrive: it fits the buffer, none is kept, and the first endpoint, which is not one
    for data, is not enabled. -/
def Otg.ReceiveFits (s : Otg) (packet : List Byte) : Prop :=
  packet.length ≤ 1600 ∧ s.bufFull = false ∧ s.enabled .dirOut 0 = false

/-- An endpoint may be enabled to send: what it sends fits the buffer, and so do the packets that
    arrive meanwhile. -/
def Otg.SendFits (s : Otg) (n : Fin 16) (val : BitVec 32) (arrivals : List (List Byte)) : Prop :=
  n ≠ 0 → val &&& ~~~OTG_EP_DISABLE &&& OTG_EP_ENABLE ≠ 0 →
    (s.ep .dirIn n).length ≤ 1600 ∧
      StepsMeet otgReceive Otg.ReceiveFits (otgSent (otgAct (otgEpDisable s .dirIn n val)) n)
        arrivals

instance Otg.ReceiveFits.decidable (s : Otg) (packet : List Byte) :
    Decidable (s.ReceiveFits packet) :=
  inferInstanceAs (Decidable (_ ∧ _ ∧ _))

instance Otg.SendFits.decidable (s : Otg) (n : Fin 16) (val : BitVec 32)
    (arrivals : List (List Byte)) : Decidable (s.SendFits n val arrivals) :=
  inferInstanceAs (Decidable (_ → _ → _ ∧ _))

/-- A write that resets the controller. -/
def otgResets (addr : Nat) (val : BitVec 32) : Prop :=
  addr = 0x10 ∧ val &&& 1 ≠ 0 ∨ addr = 0x100008 ∧ val &&& 0x1f ≠ 0

/-- What an operation is to meet. -/
def OtgOp.Fits (s : Otg) : OtgOp → Prop
  | .write addr val arrivals =>
    (otgResets addr val → s.bufFull = false) ∧
      ∀ n : Fin 16, addr = 0x900 + 32 * n → s.SendFits n val arrivals
  | .receive packet => s.ReceiveFits packet

instance otgResets.decidable (addr : Nat) (val : BitVec 32) : Decidable (otgResets addr val) :=
  inferInstanceAs (Decidable (_ ∨ _))

instance OtgOp.Fits.decidable (s : Otg) : ∀ op : OtgOp, Decidable (op.Fits s)
  | .write addr val arrivals => inferInstanceAs (Decidable
      ((otgResets addr val → s.bufFull = false) ∧
        ∀ n : Fin 16, addr = 0x900 + 32 * n → s.SendFits n val arrivals))
  | .receive packet => inferInstanceAs (Decidable (s.ReceiveFits packet))

/-- There is no register at the address. -/
def otgNoRegister (addr : Nat) : Prop :=
  0x900 ≤ addr ∧ addr ≤ 0xCFC ∧ addr % 32 ∉ [0x00, 0x08, 0x10, 0x14] ∨
    0x100000 ≤ addr ∧ addr < 0x100028 ∧ addr - 0x100000 ∉ [0x00, 0x04, 0x08, 0x20]

/-- The operation ends in `hw_error`. -/
def OtgOp.HwError : OtgOp → Prop
  | .write addr _ _ => otgNoRegister addr
  | .receive _ => False

/-! ### Accounts -/

/-- Memory is as the events have left it, every packet that arrived was taken, in order, or is kept,
    and enabled endpoints for data have taken them. -/
structure Otg.Accounts (mem : Nat → Byte) (s : Otg) (es : List OtgEvent) : Prop where
  mem : s.mem = es.foldl OtgEvent.apply mem
  packets : es.flatMap OtgEvent.arrival = es.flatMap OtgEvent.taking ++ s.kept
  taken : ∀ t, OtgEvent.taken t ∈ es → t.ep ≠ 0 ∧ t.enabled = true

section

variable {mem : Nat → Byte} {s : Otg} {es : List OtgEvent}

variable {s' : Otg}

theorem Otg.Accounts.quiet (h : s.Accounts mem es) (hmem : s'.mem = s.mem)
    (hkept : s'.kept = s.kept) : s'.Accounts mem (es ++ []) := by
  rw [List.append_nil]
  exact ⟨hmem.trans h.mem, by rw [hkept]; exact h.packets, h.taken⟩

theorem Otg.Accounts.of_eq (h : s.Accounts mem es) (hmem : s'.mem = s.mem)
    (hkept : s'.kept = s.kept) : s'.Accounts mem es := by
  have hquiet := h.quiet hmem hkept
  rwa [List.append_nil] at hquiet

@[simp] theorem OtgEvent.flatMap_arrival_setup (addr : BitVec 32) (packet : List Byte) :
    [OtgEvent.setup addr packet].flatMap OtgEvent.arrival = [] := rfl

@[simp] theorem OtgEvent.flatMap_taking_setup (addr : BitVec 32) (packet : List Byte) :
    [OtgEvent.setup addr packet].flatMap OtgEvent.taking = [] := rfl

/-- A setup packet is written. -/
theorem otgSetup_accounts (h : s.Accounts mem es) (next : OtgLogicalState) (packet : List Byte) :
    (otgSetup s next packet).Accounts mem (es ++ otgSetupEvents s packet) := by
  unfold otgSetup otgSetupEvents Otg.enabled
  dsimp only
  split_ifs
  · refine ⟨?_, ?_, fun t ht => ?_⟩
    · rw [List.foldl_append, ← h.mem]
      rfl
    · rw [List.flatMap_append, List.flatMap_append, OtgEvent.flatMap_arrival_setup,
        OtgEvent.flatMap_taking_setup, List.append_nil, List.append_nil]
      exact h.packets
    · exact h.taken t ((List.mem_append.mp ht).resolve_right (by simp))
  · exact h.quiet rfl rfl

theorem otgAct_accounts (h : s.Accounts mem es) :
    (otgAct s).Accounts mem (es ++ otgActEvents s) := by
  unfold otgAct otgActEvents
  cases s.state
  case setConfigS => exact otgSetup_accounts h _ _
  case setIfaceS => exact otgSetup_accounts h _ _
  all_goals exact h.quiet rfl rfl

variable {n : Fin 16}

/-- Setup packets go to the first endpoint, and not to the buffer. -/
theorem otgSetup_same (s : Otg) (next : OtgLogicalState) (packet : List Byte) {dir : OtgDir}
    (hn : dir = .dirOut → n ≠ 0) :
    (otgSetup s next packet).ep dir n = s.ep dir n ∧
      (otgSetup s next packet).bufFull = s.bufFull ∧ (otgSetup s next packet).buf = s.buf := by
  unfold otgSetup
  dsimp only
  split_ifs
  · refine ⟨?_, rfl, rfl⟩
    show Function.update s.ep .dirOut _ dir n = _
    cases dir with
    | dirIn => rw [Function.update_of_ne (by decide)]
    | dirOut =>
      rw [Function.update_self, Function.update_of_ne (hn rfl)]
      rfl
  · exact ⟨rfl, rfl, rfl⟩

theorem otgAct_same (s : Otg) {dir : OtgDir} (hn : dir = .dirOut → n ≠ 0) :
    (otgAct s).ep dir n = s.ep dir n ∧ (otgAct s).bufFull = s.bufFull ∧
      (otgAct s).buf = s.buf := by
  unfold otgAct
  split
  · exact otgSetup_same s _ _ hn
  · exact otgSetup_same s _ _ hn
  · exact ⟨rfl, rfl, rfl⟩

/-- An endpoint takes the packet in the buffer. -/
theorem otgDataRx_accounts (h : s.Accounts mem es) (hfull : s.bufFull = true) (hn : n ≠ 0)
    {t : OtgTaken} (ht : t = ⟨s.buf, n, true, s.ep .dirOut n⟩) :
    (otgDataRx s .dirOut n).Accounts mem (es ++ [.taken t]) := by
  subst ht
  have hpackets := h.packets
  rw [Otg.kept, hfull, if_pos rfl] at hpackets
  have htaken : ∀ t, OtgEvent.taken t ∈ es ++ [OtgEvent.taken ⟨s.buf, n, true, s.ep .dirOut n⟩] →
      t.ep ≠ 0 ∧ t.enabled = true := by
    intro t ht
    rcases List.mem_append.mp ht with ht | ht
    · exact h.taken t ht
    · obtain rfl := OtgEvent.taken.inj (List.mem_singleton.mp ht)
      exact ⟨hn, rfl⟩
  have hlist : (es ++ [OtgEvent.taken ⟨s.buf, n, true, s.ep .dirOut n⟩]).flatMap OtgEvent.arrival =
      (es ++ [OtgEvent.taken ⟨s.buf, n, true, s.ep .dirOut n⟩]).flatMap OtgEvent.taking ++ [] := by
    rw [List.flatMap_append, List.flatMap_append, hpackets]
    simp [OtgEvent.arrival, OtgEvent.taking]
  unfold otgDataRx
  dsimp only
  split_ifs with hroom
  · refine ⟨?_, hlist, htaken⟩
    rw [List.foldl_append, ← h.mem]
    exact (if_neg (by simpa [OtgTaken.written] using hroom)).symm
  · refine ⟨?_, hlist, htaken⟩
    rw [List.foldl_append, ← h.mem]
    exact (if_pos (by simpa [OtgTaken.written] using hroom)).symm

variable {packet : List Byte}

/-- A packet arrives. -/
theorem otgReceive_accounts (h : s.Accounts mem es) (hfits : s.ReceiveFits packet)
    (hs' : otgReceive s packet = some s') : s'.Accounts mem (es ++ otgReceiveEvents s packet) := by
  obtain ⟨hlen, hfull, hzero⟩ := hfits
  have hfind : ∀ n, ((List.finRange 16).find? fun n =>
      (s.ep .dirOut n).ctrl &&& OTG_EP_ENABLE != 0) = some n →
      n ≠ 0 ∧ s.enabled .dirOut n = true := by
    intro n hn
    have hen : s.enabled .dirOut n = true := List.find?_some hn
    refine ⟨?_, hen⟩
    rintro rfl
    rw [hzero] at hen
    cases hen
  have harrived : ({ s with bufFull := true, buf := packet } : Otg).Accounts mem
      (es ++ [.arrived packet]) := by
    have hpackets := h.packets
    rw [Otg.kept, hfull, if_neg Bool.false_ne_true, List.append_nil] at hpackets
    refine ⟨?_, ?_, fun t ht => ?_⟩
    · rw [List.foldl_append, ← h.mem]
      rfl
    · rw [List.flatMap_append, List.flatMap_append, hpackets]
      simp [OtgEvent.arrival, OtgEvent.taking, Otg.kept]
    · exact h.taken t ((List.mem_append.mp ht).resolve_right (by simp))
  unfold otgReceive at hs'
  rw [if_neg (Nat.not_lt.mpr hlen)] at hs'
  unfold otgReceiveEvents Otg.enabled
  dsimp only at hs'
  rw [List.append_cons]
  -- the packet goes to the first endpoint that waits, or stays in the buffer
  cases hn : (List.finRange 16).find? fun n => (s.ep .dirOut n).ctrl &&& OTG_EP_ENABLE != 0 with
  | some n =>
    obtain ⟨hne, hen⟩ := hfind n hn
    rw [hn] at hs'
    obtain rfl := Option.some.inj hs'
    refine otgDataRx_accounts harrived rfl hne ?_
    unfold Otg.enabled at hen
    rw [hen]
  | none =>
    rw [hn] at hs'
    obtain rfl := Option.some.inj hs'
    rw [List.append_nil]
    exact harrived

theorem otgReceive_some (hfits : s.ReceiveFits packet) : ∃ s', otgReceive s packet = some s' := by
  unfold otgReceive
  rw [if_neg (Nat.not_lt.mpr hfits.1)]
  dsimp only
  split
  · exact ⟨_, rfl⟩
  · exact ⟨_, rfl⟩

theorem OtgOp.exec_receive_none (s : Otg) (hlen : 1600 < packet.length) :
    (OtgOp.receive packet).exec s = none :=
  if_pos hlen

/-! ### Operations -/

variable {arrivals : List (List Byte)}

/-- Packets that arrive one after the other are accounted for. -/
theorem otgReceives_accounts (h : s.Accounts mem es)
    (hfits : StepsMeet otgReceive Otg.ReceiveFits s arrivals) :
    ∃ s', runFrom otgReceive s arrivals = some s' ∧
      s'.Accounts mem (es ++ runLog otgReceive otgReceiveEvents s arrivals) := by
  obtain ⟨s', hrun, -⟩ := runFrom_invariant (I := fun _ => True)
    (fun s p _ hp => (otgReceive_some hp).imp fun s' hs' => ⟨hs', trivial⟩) trivial hfits
  exact ⟨s', hrun, runFrom_logged (I := fun s es => s.Accounts mem es)
    (fun s l p s' hI hp hs' => otgReceive_accounts hI hp hs') h hfits hrun⟩

theorem otgDataTx_accounts (h : s.Accounts mem es) (hlen : (s.ep .dirIn n).length ≤ 1600)
    (hfits : StepsMeet otgReceive Otg.ReceiveFits (otgSent s n) arrivals) :
    ∃ s', otgDataTx s .dirIn n arrivals = some s' ∧
      s'.Accounts mem (es ++ runLog otgReceive otgReceiveEvents (otgSent s n) arrivals) := by
  obtain ⟨s', hrun, hs'⟩ := otgReceives_accounts (s := otgSent s n) (h.of_eq rfl rfl) hfits
  unfold otgDataTx
  rw [if_neg (Nat.not_lt.mpr hlen)]
  refine ⟨_, congrArg (Option.map _) hrun, hs'.of_eq rfl rfl⟩

theorem otgEpDisable_accounts (h : s.Accounts mem es) (dir : OtgDir) (n : Fin 16)
    (val : BitVec 32) : (otgEpDisable s dir n val).Accounts mem es := by
  unfold otgEpDisable
  split_ifs
  · exact h.of_eq rfl rfl
  · exact h

theorem otgEpDisable_length (s : Otg) (dir : OtgDir) (n : Fin 16) (val : BitVec 32) :
    ((otgEpDisable s dir n val).ep dir n).length = (s.ep dir n).length := by
  unfold otgEpDisable
  split_ifs
  · show (Function.update s.ep dir (Function.update (s.ep dir) n _) dir n).length = _
    rw [Function.update_self, Function.update_self]
    rfl
  · rfl

theorem otgEnable_bit (val : BitVec 32) :
    val &&& ~~~OTG_EP_DISABLE &&& OTG_EP_ENABLE = val &&& OTG_EP_ENABLE := by
  rw [BitVec.and_assoc]
  rfl

variable {val : BitVec 32}

/-- The control register of an endpoint. -/
theorem otgEpWriteCtrl_accounts (h : s.Accounts mem es) (dir : OtgDir) (n : Fin 16)
    (hfits : dir = .dirIn → s.SendFits n val arrivals) :
    ∃ s', otgEpWriteCtrl s dir n val arrivals = some s' ∧
      s'.Accounts mem (es ++ otgCtrlEvents s dir n val arrivals) := by
  have hdisabled := otgEpDisable_accounts h dir n val
  have hact := otgAct_accounts hdisabled
  unfold otgEpWriteCtrl otgCtrlEvents
  dsimp only
  -- a write that does not enable the endpoint moves no packet
  by_cases hen : (val &&& ~~~OTG_EP_DISABLE &&& OTG_EP_ENABLE != 0) = true
  swap
  · rw [if_neg hen, if_neg hen]
    exact ⟨_, rfl, hdisabled.quiet rfl rfl⟩
  rw [if_pos hen, if_pos hen, ← List.append_assoc]
  unfold otgEpEnable
  cases dir with
  | dirIn =>
    dsimp only
    by_cases hn : n = 0
    · rw [if_pos hn, if_pos hn]
      exact ⟨_, rfl, hact.quiet rfl rfl⟩
    · rw [if_neg hn, if_neg hn]
      obtain ⟨hlen, hmeanwhile⟩ := hfits rfl hn (bne_iff_ne.mp hen)
      have hlen' : ((otgAct (otgEpDisable s .dirIn n val)).ep .dirIn n).length ≤ 1600 := by
        rw [(otgAct_same _ (by rintro ⟨⟩)).1, otgEpDisable_length]
        exact hlen
      obtain ⟨s', hs', haccounts⟩ := otgDataTx_accounts hact hlen' hmeanwhile
      rw [hs']
      exact ⟨_, rfl, haccounts.of_eq rfl rfl⟩
  | dirOut =>
    dsimp only
    by_cases hn : n ≠ 0
    swap
    · rw [if_neg fun hfull => hn hfull.1, if_neg fun hfull => hn hfull.1]
      exact ⟨_, rfl, hact.quiet rfl rfl⟩
    have hsame := otgAct_same (otgEpDisable s .dirOut n val) (fun _ : OtgDir.dirOut = .dirOut => hn)
    obtain ⟨hep, hfull, hbuf⟩ := hsame
    rw [hfull]
    split_ifs with htakes
    · rw [otgEnable_bit] at hen
      exact ⟨_, rfl, (otgDataRx_accounts hact (hfull.trans htakes.2) hn
        (by rw [hen, hep, hbuf])).of_eq rfl rfl⟩
    · exact ⟨_, rfl, hact.quiet rfl rfl⟩

/-- An operation ends in `hw_error`, or the accounts go on. -/
def Goes (mem : Nat → Byte) (es : List OtgEvent) (error : Prop) (o : Option Otg) : Prop :=
  (o = none → error) ∧ ∀ s', o = some s' → s'.Accounts mem es

variable {error : Prop}

theorem Goes.of_some {o : Option Otg} (h : ∃ s', o = some s' ∧ s'.Accounts mem es) :
    Goes mem es error o := by
  obtain ⟨s', rfl, hs'⟩ := h
  exact ⟨fun hnone => absurd hnone (Option.some_ne_none s'), fun s'' heq =>
    Option.some.inj heq ▸ hs'⟩

theorem Goes.of_none (h : error) : Goes mem es error none :=
  ⟨fun _ => h, fun _ heq => absurd heq (Option.some_ne_none _).symm⟩

theorem Goes.mono {error' : Prop} {o : Option Otg} (h : Goes mem es error o)
    (herror : error → error') : Goes mem es error' o :=
  ⟨fun hnone => herror (h.1 hnone), h.2⟩

theorem Otg.Accounts.goes (h : s.Accounts mem es) (hmem : s'.mem = s.mem)
    (hkept : s'.kept = s.kept) :
    Goes mem (es ++ []) error (some s') := .of_some ⟨s', rfl, h.quiet hmem hkept⟩

theorem otgReset_kept (hfull : s.bufFull = false) (hfull' : s'.bufFull = false) :
    s'.kept = s.kept := by
  rw [Otg.kept, Otg.kept, hfull, hfull', if_neg Bool.false_ne_true, if_neg Bool.false_ne_true]

/-- A write to the PHY, with nothing kept if it resets the core. -/
theorem otgPhyWrite_accounts (h : s.Accounts mem es) {offset : Nat}
    (hreset : offset = 0x08 → val &&& 0x1f ≠ 0 → s.bufFull = false) :
    Goes mem (es ++ []) (offset ∉ [0x00, 0x04, 0x08, 0x20]) (otgPhyWrite s offset val) := by
  unfold otgPhyWrite
  split
  · exact h.goes rfl rfl
  · exact h.goes rfl rfl
  · split_ifs with hval
    · exact h.goes rfl (otgReset_kept (hreset rfl (bne_iff_ne.mp hval)) rfl)
    · exact h.goes rfl rfl
  · exact h.goes rfl rfl
  · exact h.goes rfl rfl
  · refine .of_none ?_
    simp only [List.mem_cons, List.not_mem_nil, or_false]
    rintro (rfl | rfl | rfl | rfl) <;> contradiction

/-- A write to a register of an endpoint. -/
theorem otgEpWrite_accounts (h : s.Accounts mem es) (dir : OtgDir) (n : Fin 16) {offset : Nat}
    (hfits : offset = 0 → dir = .dirIn → s.SendFits n val arrivals) :
    Goes mem (es ++ if offset = 0 then otgCtrlEvents s dir n val arrivals else [])
      (offset ∉ [0x00, 0x08, 0x10, 0x14]) (otgEpWrite s dir n offset val arrivals) := by
  by_cases hzero : offset = 0
  · subst hzero
    rw [if_pos rfl]
    exact .of_some (otgEpWriteCtrl_accounts h dir n (hfits rfl))
  rw [if_neg hzero]
  unfold otgEpWrite
  split
  · exact absurd rfl hzero
  · exact h.goes rfl rfl
  · exact h.goes rfl rfl
  · exact h.goes rfl rfl
  · refine .of_none ?_
    simp only [List.mem_cons, List.not_mem_nil, or_false]
    rintro (rfl | rfl | rfl | rfl) <;> contradiction

theorem otgEpUpdateAll_accounts (h : s.Accounts mem es) (dir : OtgDir) :
    (otgEpUpdateAll s dir).Accounts mem es := by
  unfold otgEpUpdateAll
  generalize List.finRange 16 = l
  induction l generalizing s with
  | nil => exact h
  | cons n l ih => exact ih (h.of_eq rfl rfl)

theorem otgWriteGrstCtl_accounts (h : s.Accounts mem es)
    (hreset : val &&& 1 ≠ 0 → s.bufFull = false) : (otgWriteGrstCtl s val).Accounts mem es := by
  unfold otgWriteGrstCtl
  dsimp only
  split_ifs with hcore hbus
  · exact h.of_eq rfl (otgReset_kept (hreset (bne_iff_ne.mp hcore)) rfl)
  · exact h.of_eq rfl rfl
  · exact h.of_eq rfl rfl

/-- The enumeration is taken notice of: the first setup packet may be written. -/
theorem otgWriteGintSts_accounts (h : s.Accounts mem es) (val : BitVec 32) :
    (otgWriteGintSts s val).Accounts mem
      (es ++ if val &&& ~~~otgGintFixed = USB_INT_ENUMDONE then
        otgActEvents { s with state := .setConfigS } else []) := by
  unfold otgWriteGintSts
  dsimp only
  by_cases hdone : val &&& ~~~otgGintFixed = USB_INT_ENUMDONE
  · have hreset : ¬val &&& ~~~otgGintFixed = 0x1000 := by
      rw [hdone]
      decide
    rw [if_pos hdone, if_pos hdone, if_neg hreset]
    have hstart : ({ s with
        gintSts := s.gintSts &&& ~~~(val &&& ~~~otgGintFixed), state := .setConfigS } :
        Otg).Accounts mem es := h.of_eq rfl rfl
    exact (otgAct_accounts hstart).of_eq rfl rfl
  · rw [if_neg hdone, if_neg hdone]
    split_ifs
    · exact h.quiet rfl rfl
    · exact h.quiet rfl rfl

/-- Any write that fits. -/
theorem otgWrite_accounts (h : s.Accounts mem es) {addr : Nat}
    (hfits : (OtgOp.write addr val arrivals).Fits s) :
    Goes mem (es ++ otgWriteEvents s addr val arrivals) (otgNoRegister addr)
      (otgWrite s addr val arrivals) := by
  obtain ⟨hreset, hsend⟩ := hfits
  unfold otgWrite otgWriteEvents
  -- by the ranges of addresses, then by the register
  by_cases hphy : 0x100000 ≤ addr ∧ addr < 0x100028
  · have hnotin : ¬(0x900 ≤ addr ∧ addr ≤ 0xAFC) := by omega
    have hnotout : ¬(0xB00 ≤ addr ∧ addr ≤ 0xCFC) := by omega
    have hnotsts : ¬(addr = 0x14 ∧ val &&& ~~~otgGintFixed = USB_INT_ENUMDONE) := by omega
    rw [if_pos hphy, dif_neg hnotin, dif_neg hnotout, if_neg hnotsts]
    refine (otgPhyWrite_accounts h fun hoffset hval => hreset (.inr ⟨by omega, hval⟩)).mono ?_
    exact fun hbad => .inr ⟨hphy.1, hphy.2, hbad⟩
  rw [if_neg hphy]
  by_cases hin : 0x900 ≤ addr ∧ addr ≤ 0xAFC
  · rw [dif_pos hin, dif_pos hin]
    refine (otgEpWrite_accounts h .dirIn _ fun hoffset _ => hsend _ ?_).mono ?_
    · show addr = 0x900 + 32 * ((addr - 0x900) / 32)
      omega
    · rw [show (addr - 0x900) % 32 = addr % 32 by omega]
      exact fun hbad => .inl ⟨hin.1, by omega, hbad⟩
  rw [dif_neg hin, dif_neg hin]
  by_cases hout : 0xB00 ≤ addr ∧ addr ≤ 0xCFC
  · rw [dif_pos hout, dif_pos hout]
    refine (otgEpWrite_accounts h .dirOut _ fun _ => by rintro ⟨⟩).mono ?_
    rw [show (addr - 0xB00) % 32 = addr % 32 by omega]
    exact fun hbad => .inl ⟨by omega, hout.2, hbad⟩
  rw [dif_neg hout, dif_neg hout]
  by_cases hfifo : 0x100 ≤ addr ∧ addr ≤ 0x13C
  · have hnotsts : ¬(addr = 0x14 ∧ val &&& ~~~otgGintFixed = USB_INT_ENUMDONE) := by omega
    rw [dif_pos hfifo, if_neg hnotsts]
    exact h.goes rfl rfl
  rw [dif_neg hfifo]
  by_cases hsts : addr = 0x14
  · subst hsts
    simpa using Goes.of_some ⟨_, rfl, otgWriteGintSts_accounts h val⟩
  rw [if_neg fun hdone => hsts hdone.1]
  split
  case h_5 => exact .of_some ⟨_, rfl, (otgWriteGrstCtl_accounts h fun hval =>
    hreset (.inl ⟨rfl, hval⟩)).quiet rfl rfl⟩
  case h_6 => exact absurd rfl hsts
  case h_11 =>
    have hmsk : ({ s with diepMsk := val } : Otg).Accounts mem es := h.of_eq rfl rfl
    rw [List.append_nil]
    exact .of_some ⟨_, rfl, otgEpUpdateAll_accounts hmsk .dirIn⟩
  case h_12 =>
    have hmsk : ({ s with doepMsk := val } : Otg).Accounts mem es := h.of_eq rfl rfl
    rw [List.append_nil]
    exact .of_some ⟨_, rfl, otgEpUpdateAll_accounts hmsk .dirOut⟩
  all_goals exact h.goes rfl rfl

theorem OtgOp.exec_accounts (h : s.Accounts mem es) {op : OtgOp} (hfits : op.Fits s) :
    Goes mem (es ++ op.events s) op.HwError (op.exec s) := by
  cases op with
  | write addr val arrivals => exact otgWrite_accounts h hfits
  | receive packet =>
    obtain ⟨s', hs'⟩ := otgReceive_some hfits
    exact .of_some ⟨s', hs', otgReceive_accounts h hfits hs'⟩

end

theorem Otg.exists_accounts (s : Otg) : ∃ es, s.Accounts s.mem es := by
  by_cases hfull : s.bufFull = true
  · refine ⟨[.arrived s.buf], rfl, ?_, fun t ht => ?_⟩
    · rw [Otg.kept, if_pos hfull]
      rfl
    · cases List.mem_singleton.mp ht
  · refine ⟨[], rfl, ?_, fun t ht => ?_⟩
    · rw [Otg.kept, if_neg hfull]
      rfl
    · cases ht

theorem otgInit_accounts (mem : Nat → Byte) : (otgInit mem).Accounts mem [] :=
  ⟨rfl, rfl, fun _ ht => by cases ht⟩

/-- **The packets.**  If packets fit the buffers and arrive one by one, none while the first
    endpoint is enabled, and no reset comes while one is kept, then only an access without a
    register ends a run, and every packet was written as a whole by an enabled endpoint with room
    for it, or dropped because it had none, or is kept. -/
theorem otg_packets (mem : Nat → Byte) {ops : List OtgOp}
    (h : StepsMeet OtgOp.exec OtgOp.Fits (otgInit mem) ops) :
    StepsMeet OtgOp.exec (fun s op => op.exec s = none → op.HwError) (otgInit mem) ops ∧
      ∀ s, runFrom OtgOp.exec (otgInit mem) ops = some s →
        s.Accounts mem (runLog OtgOp.exec OtgOp.events (otgInit mem) ops) := by
  refine ⟨h.mono fun s op hfits => ?_, fun s hrun => ?_⟩
  · obtain ⟨es, hes⟩ := s.exists_accounts
    exact (OtgOp.exec_accounts hes hfits).1
  · exact runFrom_logged (I := fun s es => s.Accounts mem es)
      (fun s es op s' hes hfits hs' => (OtgOp.exec_accounts hes hfits).2 s' hs')
      (otgInit_accounts mem) h hrun

/-- The second endpoint takes two packets: the first is kept until it is enabled, and the second
    comes when it is enabled again. -/
def otgTwoPackets : List OtgOp :=
  [.receive [1, 2], .write 0xB30 64 [], .write 0xB34 0x1000 [], .write 0xB20 OTG_EP_ENABLE [],
    .write 0xB20 OTG_EP_ENABLE [], .receive [3]]

/-- Both are accounted for. -/
theorem otg_packets_two :
    ((runFrom OtgOp.exec (otgInit fun _ => 0) otgTwoPackets).get (by decide +kernel)).Accounts
      (fun _ => 0) (runLog OtgOp.exec OtgOp.events (otgInit fun _ => 0) otgTwoPackets) :=
  (otg_packets (fun _ => 0) (by decide +kernel)).2 _ (Option.some_get _).symm

/-- The first endpoint is enabled. -/
def otgEnableFirst : List OtgOp := [.write 0xB10 64 [], .write 0xB00 OTG_EP_ENABLE []]

/-- A packet that comes while the first endpoint is enabled goes there, one that comes while another
    is kept takes its place, and a packet may be longer than the buffer. -/
theorem otg_packets_lost :
    (∃ s, runFrom OtgOp.exec (otgInit fun _ => 0) (otgEnableFirst ++ [.receive [1]]) = some s ∧
      ¬s.Accounts (fun _ => 0)
        (runLog OtgOp.exec OtgOp.events (otgInit fun _ => 0) (otgEnableFirst ++ [.receive [1]]))) ∧
    (∃ s, runFrom OtgOp.exec (otgInit fun _ => 0) [.receive [1], .receive [2]] = some s ∧
      ¬s.Accounts (fun _ => 0)
        (runLog OtgOp.exec OtgOp.events (otgInit fun _ => 0) [.receive [1], .receive [2]])) ∧
    (OtgOp.receive (List.replicate 1601 0)).exec (otgInit fun _ => 0) = none ∧
      ¬(OtgOp.receive (List.replicate 1601 0)).HwError := by
  refine ⟨⟨_, rfl, fun h => ?_⟩, ⟨_, rfl, fun h => ?_⟩, ?_, id⟩
  · exact (h.taken ⟨[1], 0, true, ⟨OTG_EP_ENABLE, 0, 64, 0, 0, 0⟩⟩ (.tail _ (.head _))).1 rfl
  · exact absurd h.packets (by decide +kernel)
  · refine OtgOp.exec_receive_none _ ?_
    rw [List.length_replicate]
    decide

end Qemu.Hw
