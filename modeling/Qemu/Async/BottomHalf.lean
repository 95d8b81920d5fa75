import Qemu.Lib.Runs

namespace Qemu.Async

open Qemu.Lib

/-!
# Bottom halves and contexts (`async.c`)

A bottom half belongs to the context that was current when it was made; `qemu_bh_poll` runs the
scheduled ones of the current context and then frees the deleted ones.  A callback may do all of
this again, so polls nest, and so do contexts.

* `qemuBhNew`, `qemuBhSchedule`, `qemuBhUnschedule`, … — the operations on one bottom half;
* `pollBegin`, `pollResume` — a poll up to the next callback or to its end;
* `finishPop` — the end of `async_context_pop`, which polls until there is nothing to run;
* `BhAction`, `BhAction.exec` — what the main loop or a callback does next.
-/

/-- `QEMUBH`, without the callback; `next` is in the list of the context. -/
structure QemuBh where
  scheduled : Bool
  idle : Bool
  deleted : Bool
deriving DecidableEq, Repr

/-- `AsyncContext`: a number of its own and the list from `first_bh`. -/
structure AsyncContext where
  id : Nat
  bhs : List Nat
deriving DecidableEq, Repr

/-- How often a bottom half was scheduled, run, and taken off by `qemu_bh_cancel` or
    `qemu_bh_delete`. -/
structure BhCounts where
  scheduled : Nat
  run : Nat
  dropped : Nat
deriving DecidableEq, Repr

/-- A level of the call stack, with the contexts it has entered and not left: the main loop, the
    callback of a bottom half in a poll, or `async_context_pop` waiting for its poll.  Of a poll
    there is its return value so far, and, for the record, what was scheduled when it began. -/
inductive Frame
  | main (depth : Nat)
  | callback (depth : Nat) (bh : Nat) (ret : Bool) (due : List (Nat × Nat))
  | pop
deriving DecidableEq, Repr

/-- The state: the bottom halves not freed yet, the contexts with the current one first, the call
    stack.  For the record: the context a bottom half was made in, what was run in which context,
    and what a poll left scheduled that was scheduled when it began. -/
structure AsyncState where
  heap : Nat → Option QemuBh
  contexts : List AsyncContext
  frames : List Frame
  nextBh : Nat
  nextContext : Nat
  home : Nat → Nat
  counts : Nat → BhCounts
  ran : List (Nat × Nat)
  missed : List Nat

/-- The start of the program. -/
def AsyncState.start : AsyncState where
  heap := fun _ => none
  contexts := [⟨0, []⟩]
  frames := [.main 0]
  nextBh := 0
  nextContext := 1
  home := fun _ => 0
  counts := fun _ => ⟨0, 0, 0⟩
  ran := []
  missed := []

/-- Not deleted, and scheduled: `qemu_bh_poll` calls it. -/
def QemuBh.runnable (bh : QemuBh) : Bool := !bh.deleted && bh.scheduled

/-- A bottom half that may be used: neither freed nor deleted. -/
def AsyncState.live (s : AsyncState) (b : Nat) : Bool :=
  (s.heap b).any fun bh => !bh.deleted

/-- Bottom half `b` is scheduled and not deleted. -/
def AsyncState.runnable (s : AsyncState) (b : Nat) : Bool := (s.heap b).any QemuBh.runnable

/-- The list from `async_context->first_bh`. -/
def AsyncState.bhs (s : AsyncState) : List Nat := (s.contexts.head?.map AsyncContext.bhs).getD []

/-- The list behind a bottom half, `bh->next`. -/
def after (b : Nat) : List Nat → List Nat
  | [] => []
  | a :: l => if a = b then l else after b l

/-! ### Operations -/

/-- `qemu_bh_new` -/
def qemuBhNew (s : AsyncState) : Option AsyncState :=
  match s.contexts with
  | [] => none
  | c :: cs => some { s with
    heap := Function.update s.heap s.nextBh (some ⟨false, false, false⟩)
    home := Function.update s.home s.nextBh c.id
    contexts := { c with bhs := s.nextBh :: c.bhs } :: cs
    nextBh := s.nextBh + 1 }

/-- `qemu_bh_schedule` and `qemu_bh_schedule_idle`. -/
def qemuBhSchedule (idle : Bool) (b : Nat) (s : AsyncState) : Option AsyncState :=
  (s.heap b).map fun bh =>
    if bh.scheduled then s
    else { s with
      heap := Function.update s.heap b (some { bh with scheduled := true, idle := idle })
      counts := Function.update s.counts b
        { s.counts b with scheduled := (s.counts b).scheduled + 1 } }

/-- `qemu_bh_cancel` and, with the mark, `qemu_bh_delete`. -/
def qemuBhUnschedule (delete : Bool) (b : Nat) (s : AsyncState) : Option AsyncState :=
  (s.heap b).map fun bh => { s with
    heap := Function.update s.heap b
      (some { bh with scheduled := false, deleted := bh.deleted || delete })
    counts := Function.update s.counts b
      { s.counts b with dropped := (s.counts b).dropped + bh.scheduled.toNat } }

/-! ### Polls -/

/-- What a poll that begins now has to run. -/
def AsyncState.due (s : AsyncState) : List (Nat × Nat) :=
  (s.bhs.filter s.runnable).map fun b => (b, (s.counts b).scheduled)

/-- The bottom half has been scheduled this often and the last time is still to come. -/
def AsyncState.pending (s : AsyncState) (p : Nat × Nat) : Bool :=
  (s.heap p.1).any QemuBh.scheduled && (s.counts p.1).scheduled == p.2

/-- The call of a callback. -/
def startCallback (b : Nat) (ret : Bool) (due : List (Nat × Nat)) (s : AsyncState) : AsyncState :=
  let idle := (s.heap b).any QemuBh.idle
  { s with
    heap := Function.update s.heap b
      ((s.heap b).map fun bh => { bh with scheduled := false, idle := false })
    counts := Function.update s.counts b { s.counts b with run := (s.counts b).run + 1 }
    ran := s.ran ++ s.contexts.head?.toList.map fun c => (b, c.id)
    frames := .callback 0 b (ret || !idle) due :: s.frames }

/-- "remove deleted bhs" -/
def sweep (s : AsyncState) : AsyncState :=
  match s.contexts with
  | [] => s
  | c :: cs => { s with
    contexts := { c with bhs := c.bhs.filter s.live } :: cs
    heap := fun b => if b ∈ c.bhs ∧ s.live b = false then none else s.heap b }

/-- The loop of `qemu_bh_poll` over a list: it calls a callback, or it ends and returns. -/
def pollFrom (rest : List Nat) (ret : Bool) (due : List (Nat × Nat)) (s : AsyncState) :
    AsyncState × Option Bool :=
  match rest.find? s.runnable with
  | some b => (startCallback b ret due s, none)
  | none => (sweep { s with missed := s.missed ++ (due.filter s.pending).map Prod.fst }, some ret)

/-- `qemu_bh_poll` -/
def pollBegin (s : AsyncState) : AsyncState × Option Bool := pollFrom s.bhs false s.due s

/-- Leaving or entering a context on the topmost level of the stack. -/
def mapDepth (f : Nat → Nat) : List Frame → List Frame
  | .main depth :: fs => .main (f depth) :: fs
  | .callback depth b ret due :: fs => .callback (f depth) b ret due :: fs
  | fs => fs

/-- `async_context_push` -/
def asyncContextPush (s : AsyncState) : AsyncState :=
  { s with
    contexts := ⟨s.nextContext, []⟩ :: s.contexts
    nextContext := s.nextContext + 1
    frames := mapDepth (· + 1) s.frames }

/-- `async_context_pop` behind its loop; the last context is never left. -/
def finishPop (s : AsyncState) : Option AsyncState :=
  match s.contexts, s.frames with
  | _ :: c :: cs, .pop :: fs =>
    let s := { s with contexts := c :: cs, frames := mapDepth (· - 1) fs }
    (qemuBhNew s).bind (qemuBhSchedule false s.nextBh)
  | _, _ => none

/-- A poll goes on in a callback or returns, perhaps to the loop of `async_context_pop`. -/
def pollReturn (p : AsyncState × Option Bool) : Option AsyncState :=
  match p.2, p.1.frames with
  | some ret, .pop :: _ =>
    if ret then
      match pollBegin p.1 with
      | (s, none) => some s
      | (s, some _) => finishPop s
    else finishPop p.1
  | _, _ => some p.1

/-- A callback returns to its poll, which goes on to the next bottom half. -/
def pollResume (s : AsyncState) : Option AsyncState :=
  match s.frames with
  | .callback _ b ret due :: fs => (s.heap b).bind fun _ =>
    pollReturn (pollFrom (after b s.bhs) ret due { s with frames := fs })
  | _ => none

/-! ### Actions -/

/-- What the code on top of the stack does next. -/
inductive BhAction
  | new
  | schedule (b : Nat)
  | scheduleIdle (b : Nat)
  | cancel (b : Nat)
  | delete (b : Nat)
  | poll
  | push
  | pop
  | ret
deriving DecidableEq, Repr

/-- One step, if it does not fault. -/
def BhAction.exec (s : AsyncState) : BhAction → Option AsyncState
  | .new => qemuBhNew s
  | .schedule b => qemuBhSchedule false b s
  | .scheduleIdle b => qemuBhSchedule true b s
  | .cancel b => qemuBhUnschedule false b s
  | .delete b => qemuBhUnschedule true b s
  | .poll => pollReturn (pollBegin s)
  | .push => some (asyncContextPush s)
  | .pop => pollReturn (pollBegin { s with frames := .pop :: s.frames })
  | .ret => pollResume s

/-- The contexts that the topmost level has to leave. -/
def topDepth : List Frame → Nat
  | .main depth :: _ => depth
  | .callback depth _ _ _ :: _ => depth
  | _ => 0

/-- The caller's part: it uses what it has made and not deleted, and it leaves the contexts it has
    entered, and no others, before it returns. -/
def BhAction.Possible (s : AsyncState) : BhAction → Prop
  | .new | .poll | .push => True
  | .schedule b | .scheduleIdle b | .cancel b | .delete b => s.live b
  | .pop => 0 < topDepth s.frames
  | .ret => topDepth s.frames = 0 ∧ 1 < s.frames.length

/-- The bottom halves whose callbacks are running. -/
def runningBhs : List Frame → List Nat
  | [] => []
  | .callback _ b _ _ :: fs => b :: runningBhs fs
  | _ :: fs => runningBhs fs

/-- No callback that was called from the current context has had its bottom half deleted. -/
def OuterLive (fs : List Frame) (s : AsyncState) : Prop :=
  ∀ b ∈ runningBhs fs, b ∈ s.bhs → s.live b

/-- The step ends a call of `async_context_pop`. -/
def BhAction.EndsPop (s : AsyncState) : BhAction → Bool
  | .pop => s.bhs.all fun b => !s.runnable b
  | .ret => match s.frames with
    | .callback _ b res _ :: .pop :: _ =>
      (after b s.bhs).all (fun b => !s.runnable b) && (!res || s.bhs.all fun b => !s.runnable b)
    | _ => false
  | _ => false

/-- The conditions on a step.  Where a poll may end, no bottom half of the context is deleted that
    an outer poll stands at; a context that is left has none that is not deleted. -/
def BhAction.Good (s : AsyncState) (a : BhAction) : Prop :=
  (match a with
    | .poll | .pop => OuterLive s.frames s
    | .ret => OuterLive s.frames.tail s
    | _ => True) ∧
  (a.EndsPop s = true → ∀ b ∈ s.bhs, s.live b = false)

instance BhAction.decidablePossible (s : AsyncState) (a : BhAction) : Decidable (a.Possible s) := by
  unfold BhAction.Possible
  cases a <;> infer_instance

instance BhAction.decidableGood (s : AsyncState) (a : BhAction) : Decidable (a.Good s) := by
  unfold BhAction.Good OuterLive
  cases a <;> infer_instance

end Qemu.Async
