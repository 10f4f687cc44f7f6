import OpenIon.Sched.WaitQueue
import OpenIon.Sched.Riscv.Places

/-! # Tasks that share a semaphore

The tasks call `wait`, `try_acquire`, `release` and `release_many`; between two
sections with interrupts disabled any interrupt, other scheduler call or task
switch may happen. `release_many` consists of several sections, so a task can be
preempted in the middle of it and its position is part of the state.
-/
namespace OpenIon.Sched.Semaphore
open Lib

/-- Where a task stands between two sections of a semaphore call. -/
inductive Pc where
  | idle
  /-- In the loop of `release_many`, with `woke < count` waiters woken so far. -/
  | releasing (count woke : ℕ)
  /-- After a failed `wake_one`, about to add the permits. -/
  | addingPermits (permits : ℕ)
  /-- In `wait`, enqueued but not blocked, about to leave the queue again. -/
  | leavingQueue
  deriving DecidableEq

def Pc.inRelease : Pc → Bool
  | releasing _ _ | addingPermits _ => true
  | _ => false

/-- The scheduler, the semaphore and the positions of the tasks. The last two fields count the
granted acquisitions and the permits released so far; the code does not read them. -/
structure World (N : ℕ) where
  sched : State
  permits : ℕ
  waiters : WaitQueueInner N
  pc : TaskPtr → Pc
  granted : ℕ
  released : ℕ

inductive Act where
  | tryAcquire
  | wait
  | releaseMany (count : ℕ)
  | resume
  | sched (op : Op)

def Act.release : Act := .releaseMany 1

namespace World

variable {N : ℕ}

def new (N : ℕ) (s : State) (permits : ℕ) : World N :=
  ⟨s, permits, WaitQueueInner.new N, fun _ => .idle, 0, 0⟩

def setPc (w : World N) (c : TaskPtr) (pc : Pc) : World N :=
  { w with pc := Function.update w.pc c pc }

def tryAcquire (w : World N) : World N :=
  if 0 < w.permits then { w with permits := w.permits - 1, granted := w.granted + 1 } else w

def wait (w : World N) (c : TaskPtr) : World N :=
  if 0 < w.permits then { w with permits := w.permits - 1, granted := w.granted + 1 }
  else
    match enqueueCurrent w.sched w.waiters with
    | (false, _) => w
    | (true, q) =>
      match blockCurrentTaskIrqDisabled w.sched with
      | (true, s) => { w with sched := s, waiters := q }
      | (false, s) => { w with sched := s, waiters := q }.setPc c .leavingQueue

/-- The beginning of `release_many`, up to its loop. -/
def releaseMany (w : World N) (c : TaskPtr) (count : ℕ) : World N :=
  if count = 0 then w
  else { w with released := w.released + count }.setPc c (.releasing count 0)

def saturatingAdd (cfg : Config) (a b : ℕ) : ℕ := min (a + b) (2 ^ cfg.usizeBits - 1)

/-- One turn of the loop of `release_many`, with the lock held. -/
def releaseTurn (cfg : Config) (w : World N) (c : TaskPtr) (count woke : ℕ) : World N :=
  match wakeOne cfg w.sched w.waiters with
  | (true, s, q) =>
    { w with sched := s, waiters := q, granted := w.granted + 1 }.setPc c
      (if woke + 1 < count then .releasing count (woke + 1) else .idle)
  | (false, s, q) =>
    { w with sched := s, waiters := q }.setPc c (.addingPermits (count - woke))

/-- The next section of the call that the task is in. -/
def resume (cfg : Config) (w : World N) (c : TaskPtr) : World N :=
  match w.pc c with
  | .idle => w
  | .releasing count woke => w.releaseTurn cfg c count woke
  | .addingPermits permits =>
    { w with permits := saturatingAdd cfg w.permits permits }.setPc c .idle
  | .leavingQueue => { w with waiters := w.waiters.remove (some c) }.setPc c .idle

/-- Scheduler sections of the rest of the system. A task does not stop itself inside a semaphore
call, and only this semaphore has the pointers of its waiters. -/
def admits (w : World N) : Op → Bool
  | .wake task => !w.waiters.contains task
  | .delay _ | .block | .terminate => w.sched.currentTcb.all fun c => w.pc c = .idle
  | _ => true

end World

def step {N : ℕ} (cfg : Config) (w : World N) : Act → Option (World N)
  | .tryAcquire => (w.sched.caller.filter fun c => w.pc c = .idle).map fun _ => w.tryAcquire
  | .wait => (w.sched.caller.filter fun c => w.pc c = .idle).map w.wait
  | .releaseMany count =>
    (w.sched.caller.filter fun c => w.pc c = .idle).map fun c => w.releaseMany c count
  | .resume => (w.sched.caller.filter fun c => w.pc c ≠ .idle).map (w.resume cfg)
  | .sched op =>
    if w.admits op then (Riscv.step cfg w.sched op).map fun s => { w with sched := s } else none

variable {N : ℕ} {cfg : Config} {w w' : World N} {l : List TaskPtr} {c : TaskPtr}

/-- The scheduler's invariant holds and the waiters are the blocked tasks of the list `l`. -/
structure Waiting (cfg : Config) (w : World N) (l : List TaskPtr) : Prop where
  placed : Riscv.AllPlaced cfg w.sched
  holds : w.waiters.Holds l
  blocked : ∀ p ∈ l, w.sched.IsTask p ∧ (w.sched.heap p).state = .blocked
  stays : ∀ p, w.pc p ≠ .leavingQueue
  tasks : ∀ p, w.pc p ≠ .idle → p < cfg.taskCap

end OpenIon.Sched.Semaphore
