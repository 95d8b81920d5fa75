import Qemu.Net.Queue

namespace Qemu.Net

open Lib

/-!
# What becomes of packets

* `NetRun.Reliable` — every packet is delivered once, unchanged and in the order of its sender; not
  behind a purge; its callback is called.
* `NetAction.Orderly` — no packet is handed over while an older one of its sender waits, and none is
  put back behind a purge.
* `netQueue_reliable` — runs of such actions.
-/

/-! ### What the log says -/

/-- The packets that the handler has taken, the newest first. -/
def deliveries : List NetEvent → List NetMessage
  | [] => []
  | .delivered m _ :: log => m :: deliveries log
  | _ :: log => deliveries log

/-- No purge of its sender has come behind a packet. -/
def Fresh (m : NetMessage) : List NetEvent → Prop
  | [] => True
  | e :: log => e = .sent m ∨ (e ≠ .purged m.sender ∧ Fresh m log)

/-- A packet is not offered behind a purge of its sender. -/
def OffersFresh : List NetEvent → Prop
  | [] => True
  | .offered m :: log => Fresh m log ∧ OffersFresh log
  | _ :: log => OffersFresh log

/-- A queued packet with a callback is delivered, and at once the callback is called; no callback is
called otherwise. -/
def CallsMatch : List NetEvent → Prop
  | [] => True
  | .called m sentCb :: .delivered m' sentCb' :: log =>
    m = m' ∧ sentCb' = some sentCb ∧ CallsMatch log
  | .called _ _ :: _ => False
  | .delivered _ (some _) :: _ => False
  | _ :: log => CallsMatch log

/-- The packet of a frame in which the handler runs. -/
def NetFrame.message? : NetFrame → Option NetMessage
  | .sending id sender flags data _ => some ⟨id, sender, flags, data.bytes⟩
  | .flushing packet => some packet.message
  | .calling _ => none

/-- The packets that the handler has been given and not taken yet. -/
def inDelivery (frames : List NetFrame) : List NetMessage := frames.filterMap NetFrame.message?

/-- The packets that wait. -/
def NetRun.queued (r : NetRun) : List NetMessage := r.queue.packets.map (·.message)

/-- Two packets, the newer one first; those of different senders do not overtake each other. -/
def Newer (m m' : NetMessage) : Prop := m.sender = m'.sender → m'.id < m.id

/-- Nothing is lost, changed, delivered twice or out of order. -/
structure NetRun.Reliable (r : NetRun) : Prop where
  unchanged : ∀ m ∈ deliveries r.log, .sent m ∈ r.log
  once : (deliveries r.log).Nodup
  /-- A packet that was sent is delivered, waits, or its sender was purged since. -/
  kept : ∀ m, .sent m ∈ r.log →
    m ∈ deliveries r.log ∨ m ∈ inDelivery r.frames ∨ m ∈ r.queued ∨ ¬Fresh m r.log
  inOrder : (deliveries r.log).Pairwise Newer
  called : CallsMatch r.log
  purged : OffersFresh r.log

/-! ### The condition -/

/-- The handler has no packet of this sender. -/
def HandlerClear (frames : List NetFrame) (sender : Nat) : Prop :=
  ∀ m ∈ inDelivery frames, m.sender ≠ sender

/-- The packet that a flush would take off the queue may be handed over. -/
def FlushClear (frames : List NetFrame) (packets : List NetPacket) : Prop :=
  ∀ packet ∈ packets.head?, HandlerClear frames packet.message.sender

/-- Nothing of this sender is queued. -/
def NetRun.QueueClear (r : NetRun) (sender : Nat) : Prop := ∀ m ∈ r.queued, m.sender ≠ sender

/-- The handler returns from the innermost call.  A packet that it refuses was not purged meanwhile;
a fresh one, which goes to the end of the queue, finds no packet of its sender there. -/
def NetRun.ReturnOrderly (r : NetRun) (ret : Int) : List NetFrame → Prop
  | .sending id sender flags data _ :: frames =>
    (ret = 0 → r.QueueClear sender ∧ Fresh ⟨id, sender, flags, data.bytes⟩ r.log) ∧
      (ret ≠ 0 → FlushClear frames r.queue.packets)
  | .flushing packet :: frames =>
    (ret = 0 → Fresh packet.message r.log) ∧
      (ret ≠ 0 → packet.sentCb = none → FlushClear frames r.queue.packets)
  | _ => True

/-- A packet that is handed over directly finds no packet of its sender waiting, one from the queue
finds none in the hands of the handler; and the handler returns orderly. -/
def NetAction.Orderly (r : NetRun) : NetAction → Prop
  | .send sender _ _ _ => r.queue.delivering = false →
    r.QueueClear sender ∧ HandlerClear r.frames sender
  | .flush => FlushClear r.frames r.queue.packets
  | .purge _ => True
  | .handlerReturns ret => r.ReturnOrderly ret r.frames
  | .callbackReturns => FlushClear r.frames r.queue.packets

/-! ### The invariant -/

/-- All packets that are not purged, those of one sender from the newest to the oldest. -/
def NetRun.all (r : NetRun) : List NetMessage :=
  r.queued.reverse ++ (inDelivery r.frames ++ deliveries r.log)

/-- Each packet is in one place, and those of one sender are in the order of their sends. -/
structure NetRun.Inv (r : NetRun) : Prop where
  sent : ∀ m ∈ r.all, .sent m ∈ r.log
  below : ∀ m, .sent m ∈ r.log → m.id < r.nextId
  nodup : r.all.Nodup
  kept : ∀ m, .sent m ∈ r.log → m ∈ r.all ∨ ¬Fresh m r.log
  order : r.all.Pairwise Newer
  apart : (inDelivery r.frames).Pairwise fun m m' => m.sender ≠ m'.sender
  fresh : ∀ m ∈ r.queued, Fresh m r.log
  called : CallsMatch r.log
  purged : OffersFresh r.log

/-- The invariant gives what is promised. -/
theorem NetRun.Inv.reliable {r : NetRun} (h : r.Inv) : r.Reliable where
  unchanged m hm := h.sent m (List.mem_append_right _ (List.mem_append_right _ hm))
  once := (List.nodup_append.mp (List.nodup_append.mp h.nodup).2.1).2.1
  kept m hm := by
    obtain hall | hpurged := h.kept m hm
    · obtain hqueued | hrest := List.mem_append.mp hall
      · exact .inr (.inr (.inl (List.mem_reverse.mp hqueued)))
      · obtain hin | hdelivered := List.mem_append.mp hrest
        · exact .inr (.inl hin)
        · exact .inl hdelivered
    · exact .inr (.inr (.inr hpurged))
  inOrder := (List.pairwise_append.mp (List.pairwise_append.mp h.order).2.1).2.1
  called := h.called
  purged := h.purged

theorem NetRun.start_inv : NetRun.start.Inv where
  sent _ hm := absurd hm List.not_mem_nil
  below _ hm := absurd hm List.not_mem_nil
  nodup := List.Pairwise.nil
  kept _ hm := absurd hm List.not_mem_nil
  order := List.Pairwise.nil
  apart := List.Pairwise.nil
  fresh _ hm := absurd hm List.not_mem_nil
  called := trivial
  purged := trivial

/-! ### Packets that change their place -/

/-- Nothing was sent or purged between two logs. -/
structure SameSends (log log' : List NetEvent) : Prop where
  sent : ∀ m, .sent m ∈ log' ↔ .sent m ∈ log
  fresh : ∀ m, Fresh m log' ↔ Fresh m log

theorem SameSends.refl (log : List NetEvent) : SameSends log log :=
  ⟨fun _ => Iff.rfl, fun _ => Iff.rfl⟩

variable {log : List NetEvent}

/-- An event that is neither a send nor a purge changes nothing of it. -/
theorem SameSends.cons {log' : List NetEvent} (h : SameSends log log') {e : NetEvent}
    (hsent : ∀ m, e ≠ .sent m) (hpurged : ∀ sender, e ≠ .purged sender) :
    SameSends log (e :: log') where
  sent m := by
    rw [List.mem_cons, h.sent]
    exact ⟨fun hm => hm.resolve_left (hsent m).symm, .inr⟩
  fresh m := by
    show e = .sent m ∨ (e ≠ .purged m.sender ∧ Fresh m log') ↔ _
    rw [h.fresh]
    exact ⟨fun hm => (hm.resolve_left (hsent m)).2, fun hm => .inr ⟨hpurged m.sender, hm⟩⟩

section

variable {r : NetRun}

variable {frames : List NetFrame} {queue : NetQueue}

/-- What is left to be shown where nothing is sent or purged. -/
theorem NetRun.Inv.moved (h : r.Inv) (hsame : SameSends r.log log)
    (hperm : (NetRun.all ⟨queue, frames, log, r.nextId⟩).Perm r.all)
    (horder : (NetRun.all ⟨queue, frames, log, r.nextId⟩).Pairwise Newer)
    (hapart : (inDelivery frames).Pairwise fun m m' => m.sender ≠ m'.sender)
    (hfresh : ∀ m ∈ queue.packets.map (·.message), Fresh m r.log) (hcalled : CallsMatch log)
    (hpurged : OffersFresh log) : NetRun.Inv ⟨queue, frames, log, r.nextId⟩ where
  sent m hm := (hsame.sent m).mpr (h.sent m (hperm.mem_iff.mp hm))
  below m hm := h.below m ((hsame.sent m).mp hm)
  nodup := hperm.nodup_iff.mpr h.nodup
  kept m hm := by
    rw [hperm.mem_iff, hsame.fresh]
    exact h.kept m ((hsame.sent m).mp hm)
  order := horder
  apart := hapart
  fresh m hm := (hsame.fresh m).mpr (hfresh m hm)
  called := hcalled
  purged := hpurged

/-- The first packet of the queue is handed over. -/
theorem NetRun.Inv.flush (h : r.Inv) (hclear : FlushClear r.frames r.queue.packets) :
    (qemuNetQueueFlush r).Inv := by
  unfold qemuNetQueueFlush
  cases hpackets : r.queue.packets with
  | nil => exact h
  | cons packet packets =>
    have hqueued : r.queued = packet.message :: packets.map (·.message) := by
      unfold NetRun.queued
      rw [hpackets]
      rfl
    have hfresh := h.fresh
    rw [hqueued] at hfresh
    have hall : r.all = (packets.map (·.message)).reverse ++
        (packet.message :: inDelivery r.frames ++ deliveries r.log) := by
      unfold NetRun.all
      rw [hqueued, List.reverse_cons, List.append_assoc]
      rfl
    have horder := h.order
    rw [hall] at horder
    have hhead : ∀ m ∈ inDelivery r.frames, packet.message.sender ≠ m.sender :=
      fun m hm => (hclear packet (by rw [hpackets]; rfl) m hm).symm
    refine h.moved ((SameSends.refl r.log).cons nofun nofun) ?_ horder
      (List.pairwise_cons.mpr ⟨hhead, h.apart⟩)
      (fun m hm => hfresh m (List.mem_cons_of_mem _ hm)) h.called
      ⟨hfresh _ List.mem_cons_self, h.purged⟩
    rw [hall]
    exact List.Perm.refl _

variable {m : NetMessage}

/-- The handler has taken its packet. -/
theorem NetRun.Inv.taken (h : r.Inv) {frame : NetFrame} {frames' : List NetFrame}
    (hframes : r.frames = frame :: frames) (hm : frame.message? = some m)
    (hframes' : inDelivery frames' = inDelivery frames) (hsame : SameSends r.log log)
    (hdelivered : deliveries log = m :: deliveries r.log) (hcalled : CallsMatch log)
    (hpurged : OffersFresh log) :
    NetRun.Inv ⟨⟨r.queue.packets, false⟩, frames', log, r.nextId⟩ := by
  have hin : inDelivery r.frames = m :: inDelivery frames := by
    rw [hframes]
    exact List.filterMap_cons_some hm
  have hall : r.all = r.queued.reverse ++ (m :: (inDelivery frames ++ deliveries r.log)) := by
    unfold NetRun.all
    rw [hin]
    rfl
  have hall' : NetRun.all ⟨⟨r.queue.packets, false⟩, frames', log, r.nextId⟩ =
      r.queued.reverse ++ (inDelivery frames ++ (m :: deliveries r.log)) := by
    unfold NetRun.all
    rw [hframes', hdelivered]
    rfl
  have hapart := h.apart
  rw [hin] at hapart
  obtain ⟨hothers, hapart'⟩ := List.pairwise_cons.mp hapart
  have horder := h.order
  rw [hall] at horder
  obtain ⟨hqueue, hrest, hcross⟩ := List.pairwise_append.mp horder
  obtain ⟨hold, hrest'⟩ := List.pairwise_cons.mp hrest
  obtain ⟨hdelivery, hlog, hcross'⟩ := List.pairwise_append.mp hrest'
  refine h.moved hsame ?_ ?_ (hframes' ▸ hapart') h.fresh hcalled hpurged
  · rw [hall, hall']
    exact List.Perm.append_left _ List.perm_middle
  · rw [hall']
    refine List.pairwise_append.mpr ⟨hqueue, ?_, fun x hx y hy =>
      hcross x hx y (List.perm_middle.mem_iff.mp hy)⟩
    refine List.pairwise_append.mpr ⟨hdelivery, List.pairwise_cons.mpr ⟨?_, hlog⟩, ?_⟩
    · exact fun y hy => hold y (List.mem_append_right _ hy)
    · intro x hx y hy
      obtain rfl | hy := List.mem_cons.mp hy
      -- no two packets of one sender are in delivery
      · exact fun hsender => absurd hsender.symm (hothers x hx)
      · exact hcross' x hx y hy

variable {packet : NetPacket}

/-- A queued packet is refused: it goes back to where it was. -/
theorem NetRun.Inv.putBack (h : r.Inv) (hframes : r.frames = .flushing packet :: frames)
    (hfresh : Fresh packet.message r.log) :
    NetRun.Inv ⟨⟨packet :: r.queue.packets, false⟩, frames, r.log, r.nextId⟩ := by
  have hin : inDelivery r.frames = packet.message :: inDelivery frames := by
    rw [hframes]
    rfl
  have hall : r.all =
      NetRun.all ⟨⟨packet :: r.queue.packets, false⟩, frames, r.log, r.nextId⟩ := by
    show r.queued.reverse ++ (inDelivery r.frames ++ _) =
      (packet.message :: r.queued).reverse ++ (inDelivery frames ++ _)
    rw [hin, List.reverse_cons, List.append_assoc]
    rfl
  have hapart := h.apart
  rw [hin] at hapart
  refine h.moved (SameSends.refl r.log) ?_ (hall ▸ h.order) (List.pairwise_cons.mp hapart).2
    (fun m hm => ?_) h.called h.purged
  · rw [hall]
  · obtain rfl | hm := List.mem_cons.mp hm
    · exact hfresh
    · exact h.fresh m hm

theorem foldl_append_flatten (pieces : List (List Byte)) (data : List Byte) :
    pieces.foldl (fun data piece => data ++ piece) data = data ++ pieces.flatten := by
  induction pieces generalizing data with
  | nil => exact (List.append_nil data).symm
  | cons piece pieces ih =>
    rw [List.foldl_cons, ih, List.flatten_cons, List.append_assoc]

theorem NetData.append_eq (data : NetData) (queue : NetQueue) (id sender flags : Nat)
    (sentCb : Option Nat) : data.append queue id sender flags sentCb =
      { queue with packets := queue.packets ++ [⟨⟨id, sender, flags, data.bytes⟩, sentCb⟩] } := by
  cases data with
  | buf data => rfl
  | iov pieces =>
    show qemuNetQueueAppendIov queue id sender flags pieces sentCb = _
    unfold qemuNetQueueAppendIov
    rw [foldl_append_flatten, List.nil_append]
    rfl

/-- A packet at the end of the queue is the newest one. -/
theorem all_snoc (packets : List NetPacket) (packet : NetPacket) (delivering : Bool)
    (frames : List NetFrame) (log : List NetEvent) (nextId : Nat) :
    NetRun.all ⟨⟨packets ++ [packet], delivering⟩, frames, log, nextId⟩ =
      packet.message :: ((packets.map (·.message)).reverse ++
        (inDelivery frames ++ deliveries log)) := by
  show ((packets ++ [packet]).map (·.message)).reverse ++ _ = _
  rw [List.map_append, List.map_singleton, List.reverse_append, List.reverse_singleton]
  rfl

theorem mem_queued_snoc {packets : List NetPacket}
    (hm : m ∈ (packets ++ [packet]).map (·.message)) :
    m ∈ packets.map (·.message) ∨ m = packet.message := by
  rwa [List.map_append, List.mem_append, List.map_singleton, List.mem_singleton] at hm

/-- A fresh packet is refused: it goes to the end of the queue. -/
theorem NetRun.Inv.queueFresh (h : r.Inv) {frame : NetFrame}
    (hframes : r.frames = frame :: frames) (hm : frame.message? = some packet.message)
    (hqueue : r.QueueClear packet.message.sender) (hfresh : Fresh packet.message r.log) :
    NetRun.Inv ⟨⟨r.queue.packets ++ [packet], false⟩, frames, r.log, r.nextId⟩ := by
  have hin : inDelivery r.frames = packet.message :: inDelivery frames := by
    rw [hframes]
    exact List.filterMap_cons_some hm
  have hall : r.all = r.queued.reverse ++ (packet.message ::
      (inDelivery frames ++ deliveries r.log)) := by
    unfold NetRun.all
    rw [hin]
    rfl
  have horder := h.order
  rw [hall] at horder
  obtain ⟨hqueued, hrest, hcross⟩ := List.pairwise_append.mp horder
  obtain ⟨hnewer, hrest'⟩ := List.pairwise_cons.mp hrest
  have hapart := h.apart
  rw [hin] at hapart
  refine h.moved (SameSends.refl r.log) ?_ ?_ (List.pairwise_cons.mp hapart).2 (fun m hm => ?_)
    h.called h.purged
  · rw [hall, all_snoc]
    exact List.perm_middle.symm
  · rw [all_snoc]
    refine List.pairwise_cons.mpr ⟨fun y hy => ?_, List.pairwise_append.mpr ⟨hqueued, hrest',
      fun x hx y hy => hcross x hx y (List.mem_cons_of_mem _ hy)⟩⟩
    obtain hy | hy := List.mem_append.mp hy
    · exact fun hsender => absurd hsender.symm (hqueue y (List.mem_reverse.mp hy))
    · exact hnewer y hy
  · obtain hm | rfl := mem_queued_snoc hm
    · exact h.fresh m hm
    · exact hfresh

/-! ### New packets and purges -/

theorem NetRun.Inv.not_mem (h : r.Inv) (hm : m.id = r.nextId) : m ∉ r.all :=
  fun hall => absurd (h.below m (h.sent m hall)) (by rw [hm]; exact Nat.lt_irrefl _)

theorem NetRun.Inv.newer (h : r.Inv) (hm : m.id = r.nextId) : ∀ m' ∈ r.all, Newer m m' := by
  intro m' hall _
  rw [hm]
  exact h.below m' (h.sent m' hall)

/-- What is left to be shown where a packet is sent. -/
theorem NetRun.Inv.sends (h : r.Inv) (hm : m.id = r.nextId)
    (hsame : SameSends (.sent m :: r.log) log)
    (hperm : (NetRun.all ⟨queue, frames, log, r.nextId + 1⟩).Perm (m :: r.all))
    (horder : (NetRun.all ⟨queue, frames, log, r.nextId + 1⟩).Pairwise Newer)
    (hapart : (inDelivery frames).Pairwise fun m m' => m.sender ≠ m'.sender)
    (hfresh : ∀ m' ∈ queue.packets.map (·.message), m' ∈ r.queued ∨ m' = m)
    (hcalled : CallsMatch log) (hpurged : OffersFresh log) :
    NetRun.Inv ⟨queue, frames, log, r.nextId + 1⟩ where
  sent m' hall := by
    rw [hsame.sent]
    obtain rfl | hall := List.mem_cons.mp (hperm.mem_iff.mp hall)
    · exact List.mem_cons_self
    · exact List.mem_cons_of_mem _ (h.sent m' hall)
  below m' hsent := by
    obtain heq | hsent := List.mem_cons.mp ((hsame.sent m').mp hsent)
    · obtain rfl := NetEvent.sent.inj heq
      exact Nat.lt_succ_of_le (Nat.le_of_eq hm)
    · exact Nat.lt_succ_of_lt (h.below m' hsent)
  nodup := hperm.nodup_iff.mpr (List.nodup_cons.mpr ⟨h.not_mem hm, h.nodup⟩)
  kept m' hsent := by
    rw [hperm.mem_iff, hsame.fresh]
    obtain heq | hsent := List.mem_cons.mp ((hsame.sent m').mp hsent)
    · obtain rfl := NetEvent.sent.inj heq
      exact .inl List.mem_cons_self
    · obtain hall | hpurged := h.kept m' hsent
      · exact .inl (List.mem_cons_of_mem _ hall)
      · refine .inr fun hfresh => ?_
        obtain heq | hfresh := hfresh
        · obtain rfl := NetEvent.sent.inj heq
          exact absurd (h.below m hsent) (by rw [hm]; exact Nat.lt_irrefl _)
        · exact hpurged hfresh.2
  order := horder
  apart := hapart
  fresh m' hqueued := by
    rw [hsame.fresh]
    obtain hqueued | rfl := hfresh m' hqueued
    · exact .inr ⟨NetEvent.noConfusion, h.fresh m' hqueued⟩
    · exact .inl rfl
  called := hcalled
  purged := hpurged

/-- An orderly send keeps the invariant. -/
theorem NetRun.Inv.send (h : r.Inv) {sender flags : Nat} {data : NetData} {sentCb : Option Nat}
    (horderly : (NetAction.send sender flags data sentCb).Orderly r) :
    (qemuNetQueueSend r sender flags data sentCb).Inv := by
  have hid : (⟨r.nextId, sender, flags, data.bytes⟩ : NetMessage).id = r.nextId := rfl
  unfold qemuNetQueueSend
  dsimp only
  split_ifs with hdelivering
  -- from within the handler: the packet is appended
  · rw [data.append_eq]
    refine h.sends hid (SameSends.refl _) ?_ ?_ h.apart (fun m' hm' => mem_queued_snoc hm')
      h.called h.purged
    · rw [all_snoc]
      exact List.Perm.refl _
    · rw [all_snoc]
      exact List.pairwise_cons.mpr ⟨h.newer hid, h.order⟩
  · obtain ⟨hqueue, hhandler⟩ := horderly (Bool.eq_false_iff.mpr hdelivering)
    have hfresh : Fresh ⟨r.nextId, sender, flags, data.bytes⟩
        (.sent ⟨r.nextId, sender, flags, data.bytes⟩ :: r.log) := .inl rfl
    obtain ⟨hqueued, hrest, hcross⟩ := List.pairwise_append.mp h.order
    refine h.sends hid ((SameSends.refl _).cons nofun nofun) ?_ ?_
      (List.pairwise_cons.mpr ⟨fun m' hm' => (hhandler m' hm').symm, h.apart⟩)
      (fun m' hm' => .inl hm') h.called ⟨hfresh, h.purged⟩
    · exact List.perm_middle
    · refine List.pairwise_append.mpr ⟨hqueued, List.pairwise_cons.mpr ⟨fun m' hm' => ?_, hrest⟩,
        fun x hx y hy => ?_⟩
      · exact h.newer hid m' (List.mem_append_right _ hm')
      · obtain rfl | hy := List.mem_cons.mp hy
        · exact fun hsender => absurd hsender (hqueue x (List.mem_reverse.mp hx))
        · exact hcross x hx y hy

theorem mem_purged {sender : Nat} :
    m ∈ (qemuNetQueuePurge queue sender).packets.map (·.message) ↔
      m ∈ queue.packets.map (·.message) ∧ m.sender ≠ sender := by
  unfold qemuNetQueuePurge
  simp only [List.mem_map, List.mem_filter, decide_eq_true_eq]
  constructor
  · rintro ⟨packet, ⟨hmem, hsender⟩, rfl⟩
    exact ⟨⟨packet, hmem, rfl⟩, hsender⟩
  · rintro ⟨⟨packet, hmem, rfl⟩, hsender⟩
    exact ⟨packet, ⟨hmem, hsender⟩, rfl⟩

/-- A purge keeps the invariant. -/
theorem NetRun.Inv.purge (h : r.Inv) (sender : Nat) :
    NetRun.Inv ⟨qemuNetQueuePurge r.queue sender, r.frames, .purged sender :: r.log, r.nextId⟩ := by
  have hsub : (NetRun.all ⟨qemuNetQueuePurge r.queue sender, r.frames, .purged sender :: r.log,
      r.nextId⟩).Sublist r.all :=
    ((List.filter_sublist.map _).reverse).append_right _
  refine ⟨fun m hm => ?_, fun m hm => ?_, h.nodup.sublist hsub, fun m hm => ?_,
    h.order.sublist hsub, h.apart, fun m hm => ?_, h.called, h.purged⟩
  · exact List.mem_cons_of_mem _ (h.sent m (hsub.subset hm))
  · exact h.below m ((List.mem_cons.mp hm).resolve_left nofun)
  · obtain hall | hpurged := h.kept m ((List.mem_cons.mp hm).resolve_left nofun)
    · obtain hqueued | hrest := List.mem_append.mp hall
      · by_cases hsender : m.sender = sender
        · refine .inr fun hfresh => ?_
          obtain heq | ⟨hne, -⟩ := hfresh
          · exact absurd heq nofun
          · exact hne (congrArg NetEvent.purged hsender.symm)
        · exact .inl (List.mem_append_left _ (List.mem_reverse.mpr
            (mem_purged.mpr ⟨List.mem_reverse.mp hqueued, hsender⟩)))
      · exact .inl (List.mem_append_right _ hrest)
    · exact .inr fun hfresh => hpurged (hfresh.resolve_left nofun).2
  · obtain ⟨hqueued, hsender⟩ := mem_purged.mp hm
    exact .inr ⟨fun heq => hsender (NetEvent.purged.inj heq).symm, h.fresh m hqueued⟩

end

/-! ### Runs -/

/-- Every orderly action keeps the invariant. -/
theorem NetAction.exec_inv (r : NetRun) (a : NetAction) (r' : NetRun) (h : r.Inv)
    (horderly : a.Orderly r) (hexec : a.exec r = some r') : r'.Inv := by
  -- only a handler that returns takes a frame off the stack
  cases a with
  | send sender flags data sentCb =>
    obtain rfl := Option.some.inj hexec
    exact h.send horderly
  | flush =>
    obtain rfl := Option.some.inj hexec
    exact h.flush horderly
  | purge sender =>
    obtain rfl := Option.some.inj hexec
    exact h.purge sender
  | handlerReturns ret =>
    unfold NetAction.exec at hexec
    have hreturn : r.ReturnOrderly ret r.frames := horderly
    dsimp only at hexec
    cases hframes : r.frames with
    | nil =>
      rw [hframes] at hexec
      exact absurd hexec.symm (Option.some_ne_none r')
    | cons frame frames =>
      rw [hframes] at hexec hreturn
      cases frame with
      | sending id sender flags data sentCb =>
        dsimp only at hexec
        split_ifs at hexec with hret
        · obtain rfl := Option.some.inj hexec
          rw [data.append_eq]
          exact h.queueFresh hframes rfl (hreturn.1 hret).1 (hreturn.1 hret).2
        · obtain rfl := Option.some.inj hexec
          have hsame : SameSends r.log
              (.delivered ⟨id, sender, flags, data.bytes⟩ none :: r.log) :=
            (SameSends.refl _).cons nofun nofun
          exact (h.taken hframes rfl rfl hsame rfl h.called h.purged).flush (hreturn.2 hret)
      | flushing packet =>
        dsimp only at hexec
        split_ifs at hexec with hret
        · obtain rfl := Option.some.inj hexec
          exact h.putBack hframes (hreturn.1 hret)
        · have hsame : SameSends r.log (.delivered packet.message packet.sentCb :: r.log) :=
            (SameSends.refl _).cons nofun nofun
          cases hcb : packet.sentCb with
          | none =>
            rw [hcb] at hexec hsame
            obtain rfl := Option.some.inj hexec
            exact (h.taken hframes rfl rfl hsame rfl h.called h.purged).flush (hreturn.2 hret hcb)
          | some sentCb =>
            rw [hcb] at hexec hsame
            obtain rfl := Option.some.inj hexec
            exact h.taken hframes rfl rfl (hsame.cons nofun nofun) rfl ⟨rfl, rfl, h.called⟩
              h.purged
      | calling sentCb => exact absurd hexec.symm (Option.some_ne_none r')
  | callbackReturns =>
    unfold NetAction.exec at hexec
    dsimp only at hexec
    cases hframes : r.frames with
    | nil =>
      rw [hframes] at hexec
      exact absurd hexec.symm (Option.some_ne_none r')
    | cons frame frames =>
      rw [hframes] at hexec
      cases frame with
      | sending id sender flags data sentCb => exact absurd hexec.symm (Option.some_ne_none r')
      | flushing packet => exact absurd hexec.symm (Option.some_ne_none r')
      | calling sentCb =>
        obtain rfl := Option.some.inj hexec
        have hin : inDelivery r.frames = inDelivery frames := by
          rw [hframes]
          rfl
        have hall : r.all = NetRun.all ⟨r.queue, frames, r.log, r.nextId⟩ := by
          unfold NetRun.all
          rw [hin]
          rfl
        have hinv : NetRun.Inv ⟨r.queue, frames, r.log, r.nextId⟩ :=
          h.moved (SameSends.refl _) (hall ▸ List.Perm.refl _) (hall ▸ h.order) (hin ▸ h.apart)
            h.fresh h.called h.purged
        refine hinv.flush fun packet hpacket m hm => horderly packet hpacket m ?_
        rw [hin]
        exact hm

/-- **Packets are delivered once, in order, and not behind a purge** in every orderly run. -/
theorem netQueue_reliable {actions : List NetAction} {r : NetRun}
    (horderly : StepsMeet NetAction.exec (fun r a => a.Orderly r) NetRun.start actions)
    (hrun : runFrom NetAction.exec NetRun.start actions = some r) : r.Reliable :=
  (runFrom_preserves NetAction.exec_inv NetRun.start_inv horderly hrun).reliable

instance Fresh.decidable (m : NetMessage) : ∀ log, Decidable (Fresh m log)
  | [] => isTrue trivial
  | e :: log =>
    have : Decidable (Fresh m log) := Fresh.decidable m log
    inferInstanceAs (Decidable (e = .sent m ∨ (e ≠ .purged m.sender ∧ Fresh m log)))

instance HandlerClear.decidable (frames : List NetFrame) (sender : Nat) :
    Decidable (HandlerClear frames sender) :=
  List.decidableBAll (fun m : NetMessage => m.sender ≠ sender) (inDelivery frames)

instance FlushClear.decidable (frames : List NetFrame) :
    ∀ packets, Decidable (FlushClear frames packets)
  | [] => isTrue nofun
  | packet :: _ => decidable_of_iff (HandlerClear frames packet.message.sender)
      ⟨fun h _ hp => Option.some.inj hp ▸ h, fun h => h packet rfl⟩

instance NetRun.QueueClear.decidable (r : NetRun) (sender : Nat) :
    Decidable (r.QueueClear sender) :=
  List.decidableBAll (fun m : NetMessage => m.sender ≠ sender) r.queued

instance NetRun.returnOrderlyDecidable (r : NetRun) (ret : Int) :
    ∀ frames, Decidable (r.ReturnOrderly ret frames)
  | [] => isTrue trivial
  | .sending id sender flags data _ :: frames => inferInstanceAs (Decidable
      ((ret = 0 → r.QueueClear sender ∧ Fresh ⟨id, sender, flags, data.bytes⟩ r.log) ∧
        (ret ≠ 0 → FlushClear frames r.queue.packets)))
  | .flushing packet :: frames => inferInstanceAs (Decidable
      ((ret = 0 → Fresh packet.message r.log) ∧
        (ret ≠ 0 → packet.sentCb = none → FlushClear frames r.queue.packets)))
  | .calling _ :: _ => isTrue trivial

instance NetAction.orderlyDecidable (r : NetRun) : ∀ a : NetAction, Decidable (a.Orderly r)
  | .send sender _ _ _ => inferInstanceAs (Decidable (r.queue.delivering = false →
      r.QueueClear sender ∧ HandlerClear r.frames sender))
  | .flush => inferInstanceAs (Decidable (FlushClear r.frames r.queue.packets))
  | .purge _ => isTrue trivial
  | .handlerReturns ret => inferInstanceAs (Decidable (r.ReturnOrderly ret r.frames))
  | .callbackReturns => inferInstanceAs (Decidable (FlushClear r.frames r.queue.packets))

/-- Sender 1 has to wait for its callback; sender 2 sends from within the handler. -/
def waitingActions : List NetAction :=
  [.send 1 0 (.buf [1]) (some 7), .handlerReturns 0, .flush, .send 2 0 (.iov [[2], [3]]) none,
    .handlerReturns 1, .callbackReturns, .handlerReturns 2]

/-- A packet that is sent while another one is being delivered waits and is delivered behind it. -/
theorem netQueue_reliable_waiting : ∃ r,
    runFrom NetAction.exec NetRun.start waitingActions = some r ∧
      (deliveries r.log).map (·.data) = [[2, 3], [1]] ∧ r.Reliable := by
  have horderly : StepsMeet NetAction.exec (fun r a => a.Orderly r) NetRun.start
      waitingActions := by decide
  exact ⟨_, rfl, by decide, netQueue_reliable horderly rfl⟩

/-- A packet that is sent from within the handler comes to stand in front of the older one that the
handler refuses. -/
theorem netQueue_reorders : ¬∀ (actions : List NetAction) (r : NetRun),
    runFrom NetAction.exec NetRun.start actions = some r → r.Reliable := by
  intro h
  have hreliable := h [.send 1 0 (.buf [1]) none, .send 1 0 (.buf [2]) none, .handlerReturns 0,
    .flush, .handlerReturns 1, .handlerReturns 1] _ rfl
  have hnewer := (List.pairwise_cons.mp hreliable.inOrder).1 _ List.mem_cons_self rfl
  exact absurd hnewer (by decide)

end Qemu.Net
