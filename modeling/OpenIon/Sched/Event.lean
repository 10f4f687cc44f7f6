import OpenIon.Sched.WaitQueue
import OpenIon.Sched.Async.Executor

/-! # Events

`Event` of `sched/wait.rs` in the build with the async runtime: a flag, the queue
of the tasks that block on it and at most one registered async task. Every
function below is one section under the lock of the event.
-/
namespace OpenIon.Sched
open Async

structure EventInner (M : ℕ) where
  signaled : Bool
  waiters : WaitQueueInner M
  asyncWaiter : Option ℕ

inductive WaitResult where
  | granted
  | blocked
  /-- Enqueued but not blocked: the task has to leave the queue again. -/
  | leaving
  | refused
  deriving DecidableEq

namespace EventInner

variable {M N : ℕ} {φ : Type*}

def new (M : ℕ) : EventInner M := ⟨false, WaitQueueInner.new M, none⟩

def wait (s : State) (ev : EventInner M) : WaitResult × State × EventInner M :=
  if s.currentTcb.isNone then (.refused, s, ev)
  else if ev.signaled then (.granted, s, { ev with signaled := false })
  else
    match enqueueCurrent s ev.waiters with
    | (false, _) => (.refused, s, ev)
    | (true, q) =>
      match blockCurrentTaskIrqDisabled s with
      | (true, s) => (.blocked, s, { ev with waiters := q })
      | (false, s) => (.leaving, s, { ev with waiters := q })

/-- `remove_task` on the waiters, for a task that could not block. -/
def leave (ev : EventInner M) (p : TaskPtr) : EventInner M :=
  { ev with waiters := ev.waiters.remove (some p) }

/-- `Event::signal`: a blocked task is woken, or the registered async task, or nobody. -/
def signal (cfg : Config) (s : State) (e : Executor N φ) (ev : EventInner M) :
    Bool × State × Executor N φ × EventInner M :=
  match wakeOne cfg s ev.waiters with
  | (true, s, q) => (true, s, e, { ev with waiters := q })
  | (false, s, q) =>
    match ev.asyncWaiter with
    | some task =>
      (true, s, e.wakeTask task, { signaled := true, waiters := q, asyncWaiter := none })
    | none => (false, s, e, { ev with signaled := true, waiters := q })

def clear (ev : EventInner M) : EventInner M := { ev with signaled := false }

/-- `EventWait::poll`, with `CURRENT_POLL_TASK` and the field `waiter` of the future. -/
def pollWait (ev : EventInner M) (current waiter : Option ℕ) :
    Bool × Option ℕ × EventInner M :=
  match current with
  | none => (false, waiter, ev)
  | some task =>
    if ev.signaled then
      (true, none, { ev with
        signaled := false
        asyncWaiter := if ev.asyncWaiter = some task then none else ev.asyncWaiter })
    else if ev.asyncWaiter = none ∨ ev.asyncWaiter = some task then
      (false, some task, { ev with asyncWaiter := some task })
    else (false, waiter, ev)

def dropWait (ev : EventInner M) (waiter : Option ℕ) : EventInner M :=
  match waiter with
  | none => ev
  | some task => if ev.asyncWaiter = some task then { ev with asyncWaiter := none } else ev

theorem signal_woke (cfg : Config) (s : State) (e : Executor N φ) (ev : EventInner M) :
    Woke e (ev.signal cfg s e).2.2.1 := by
  unfold signal
  split
  · exact .refl e
  · split
    · exact (Woke.refl e).wakeTask
    · exact .refl e

end EventInner

end OpenIon.Sched
