import Qemu.Lib.Runs
import Qemu.Lib.Stream

namespace Qemu.Net

open Lib

/-!
# The packet queue (`net/queue.c`)

* `qemuNetQueueAppend`, `qemuNetQueueAppendIov`, `qemuNetQueuePurge` — the queue.
* `qemuNetQueueFlush` — its loop runs as far as the next call of the delivery handler.
* `NetAction.exec` — calls of the queue's functions, and returns of the handler and of sent
  callbacks.

The handler and the callbacks may call the functions again: what they are called from is a list of
frames, the innermost first.  The log says what has happened, the newest first; each packet has the
number of the call it was sent by.
-/

/-- A packet as its sender or the handler sees it. -/
structure NetMessage where
  id : Nat
  sender : Nat
  flags : Nat
  data : List Byte
deriving DecidableEq

/-- A queued packet; callbacks are numbers. -/
structure NetPacket where
  message : NetMessage
  sentCb : Option Nat
deriving DecidableEq

/-- `NetQueue` -/
structure NetQueue where
  packets : List NetPacket
  delivering : Bool
deriving DecidableEq

/-- The data of `qemu_net_queue_send` or of `qemu_net_queue_send_iov`. -/
inductive NetData
  | buf (data : List Byte)
  | iov (pieces : List (List Byte))
deriving DecidableEq

/-- The bytes that the handler is given. -/
def NetData.bytes : NetData → List Byte
  | .buf data => data
  | .iov pieces => pieces.flatten

/-- `qemu_net_queue_append` -/
def qemuNetQueueAppend (queue : NetQueue) (id sender flags : Nat) (data : List Byte)
    (sentCb : Option Nat) : NetQueue :=
  { queue with packets := queue.packets ++ [⟨⟨id, sender, flags, data⟩, sentCb⟩] }

/-- The pieces are copied one behind the other. -/
def qemuNetQueueAppendIov (queue : NetQueue) (id sender flags : Nat) (iov : List (List Byte))
    (sentCb : Option Nat) : NetQueue :=
  { queue with packets := queue.packets ++
      [⟨⟨id, sender, flags, iov.foldl (fun data piece => data ++ piece) []⟩, sentCb⟩] }

/-- The append of the one function or the other. -/
def NetData.append (queue : NetQueue) (id sender flags : Nat) (sentCb : Option Nat) :
    NetData → NetQueue
  | .buf data => qemuNetQueueAppend queue id sender flags data sentCb
  | .iov pieces => qemuNetQueueAppendIov queue id sender flags pieces sentCb

/-- `qemu_net_queue_purge` -/
def qemuNetQueuePurge (queue : NetQueue) (sender : Nat) : NetQueue :=
  { queue with packets := queue.packets.filter (·.message.sender ≠ sender) }

/-! ### Runs -/

/-- A call that has not returned: of the handler with a fresh packet, of the handler with a queued
one, of a sent callback. -/
inductive NetFrame
  | sending (id sender flags : Nat) (data : NetData) (sentCb : Option Nat)
  | flushing (packet : NetPacket)
  | calling (sentCb : Nat)
deriving DecidableEq

/-- What happens to packets, newest first in a log. -/
inductive NetEvent
  | sent (m : NetMessage)
  | offered (m : NetMessage)
  /-- The handler has taken a packet; `sentCb` is the callback if it was a queued one. -/
  | delivered (m : NetMessage) (sentCb : Option Nat)
  | called (m : NetMessage) (sentCb : Nat)
  | purged (sender : Nat)
deriving DecidableEq

/-- The queue, the calls that have not returned, what has happened, and the number of the next
packet. -/
structure NetRun where
  queue : NetQueue
  frames : List NetFrame
  log : List NetEvent
  nextId : Nat
deriving DecidableEq

/-- `qemu_new_net_queue` -/
def NetRun.start : NetRun := ⟨⟨[], false⟩, [], [], 0⟩

/-- The handler is called. -/
def NetRun.offer (r : NetRun) (m : NetMessage) (frame : NetFrame) : NetRun :=
  { r with
    queue := { r.queue with delivering := true }
    frames := frame :: r.frames
    log := .offered m :: r.log }

/-- The handler has returned. -/
def NetRun.handlerLeft (r : NetRun) (frames : List NetFrame) : NetRun :=
  { r with queue := { r.queue with delivering := false }, frames := frames }

/-- The loop of `qemu_net_queue_flush`. -/
def qemuNetQueueFlush (r : NetRun) : NetRun :=
  match r.queue.packets with
  | [] => r
  | packet :: packets =>
    { r with queue := { r.queue with packets := packets } }.offer packet.message (.flushing packet)

/-- `qemu_net_queue_send` -/
def qemuNetQueueSend (r : NetRun) (sender flags : Nat) (data : NetData) (sentCb : Option Nat) :
    NetRun :=
  let m : NetMessage := ⟨r.nextId, sender, flags, data.bytes⟩
  let sent : NetRun := { r with log := .sent m :: r.log, nextId := r.nextId + 1 }
  if r.queue.delivering then
    { sent with queue := data.append r.queue r.nextId sender flags none }
  else sent.offer m (.sending r.nextId sender flags data sentCb)

/-- A call of the queue, or the return of one of its callbacks. -/
inductive NetAction
  | send (sender flags : Nat) (data : NetData) (sentCb : Option Nat)
  | flush
  | purge (sender : Nat)
  /-- The innermost call returns: of the handler, with its value, or of a callback. -/
  | handlerReturns (ret : Int)
  | callbackReturns
deriving DecidableEq

/-- One step, if it can happen. -/
def NetAction.exec (r : NetRun) : NetAction → Option NetRun
  | .send sender flags data sentCb => some (qemuNetQueueSend r sender flags data sentCb)
  | .flush => some (qemuNetQueueFlush r)
  | .purge sender =>
    some { r with queue := qemuNetQueuePurge r.queue sender, log := .purged sender :: r.log }
  | .handlerReturns ret =>
    match r.frames with
    | .sending id sender flags data sentCb :: frames =>
      let r := r.handlerLeft frames
      if ret = 0 then some { r with queue := data.append r.queue id sender flags sentCb }
      else
        some (qemuNetQueueFlush
          { r with log := .delivered ⟨id, sender, flags, data.bytes⟩ none :: r.log })
    | .flushing packet :: frames =>
      let r := r.handlerLeft frames
      if ret = 0 then
        some { r with queue := { r.queue with packets := packet :: r.queue.packets } }
      else
        let r := { r with log := .delivered packet.message packet.sentCb :: r.log }
        match packet.sentCb with
        | none => some (qemuNetQueueFlush r)
        | some sentCb =>
          some { r with
            frames := .calling sentCb :: r.frames
            log := .called packet.message sentCb :: r.log }
    | _ => none
  | .callbackReturns =>
    match r.frames with
    | .calling _ :: frames => some (qemuNetQueueFlush { r with frames := frames })
    | _ => none

end Qemu.Net
