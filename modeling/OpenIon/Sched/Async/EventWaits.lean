import OpenIon.Sched.Async.Owner

/-! # Futures that wait for one event

The `EventWait` futures of one event among the async tasks. An `EventWait` is a value
like any other: whichever task has it polls it, and it may be dropped at any time.
-/
namespace OpenIon.Sched.Async.EventWaits
open Lib

/-- An `EventWait` with its field `waiter`. The code does not have the other fields: the slot and
the future of the task that polled it last, and whether the last poll of that task got `Pending`
from it. -/
structure EventWait where
  owner : Option ℕ
  future : Option ℕ
  waiter : Option ℕ
  awaited : Bool

def EventWait.fresh : EventWait := ⟨none, none, none, false⟩

/-- The world of the executor, in which the event has number 0, with `K` waits and the future that
made the last registration, which the code does not record. -/
structure World (M N K : ℕ) where
  base : Async.World M N
  waits : Fin K → EventWait
  registrant : Option ℕ

inductive Act (K : ℕ) where
  | base (act : Async.Act)
  | poll (j : Fin K)
  | drop (j : Fin K)

namespace World

variable {M N K : ℕ}

def new (M N K : ℕ) (s : State) : World M N K := ⟨.new M N s, fun _ => .fresh, none⟩

def event (w : World M N K) : EventInner M := w.base.events 0

def polled (w : World M N K) : Option ℕ := w.base.phase.currentPollTask

def unawait (w : World M N K) (idx : Option ℕ) (j : Fin K) : EventWait :=
  if (w.waits j).owner = idx then { w.waits j with awaited := false } else w.waits j

def pollWait (w : World M N K) (j : Fin K) (idx f : ℕ) : World M N K :=
  let (ready, waiter, ev) := w.event.pollWait (some idx) (w.waits j).waiter
  { base := w.base.setEvent 0 ev
    waits := Function.update w.waits j ⟨some idx, some f, waiter, !ready⟩
    registrant := if ready = false ∧ ev.asyncWaiter = some idx then some f else w.registrant }

def dropWait (w : World M N K) (j : Fin K) : World M N K :=
  { w with
    base := w.base.setEvent 0 (w.event.dropWait (w.waits j).waiter)
    waits := Function.update w.waits j .fresh }

/-- A poll starts without awaited waits, and a future that returned `Ready` awaits nothing. -/
def follow (w : World M N K) (b : Async.World M N) : Async.Act → World M N K
  | .advance =>
    match b.phase.currentPollTask with
    | some idx => { w with base := b, waits := w.unawait (some idx) }
    | none => { w with base := b }
  | .pollReturns .ready => { w with base := b, waits := w.unawait w.polled }
  | _ => { w with base := b }

end World

/-- The waits of the event are polled and dropped by their own steps. -/
def admits : Async.Act → Prop
  | .pollEvent i _ | .dropEvent i _ => i ≠ 0
  | _ => True

instance : (act : Async.Act) → Decidable (admits act)
  | .pollEvent i _ | .dropEvent i _ => inferInstanceAs (Decidable (i ≠ 0))
  | .advance | .spawn _ | .pollOnce | .pollReturns _ | .wakeTask _ | .tickUpdate | .signal _
  | .clear _ | .eventWait _ | .eventLeave _ _ | .pollSleep _ | .sched _ => isTrue trivial

def step {M N K : ℕ} (asyncRt : Bool) (cfg : Config) (w : World M N K) :
    Act K → Option (World M N K)
  | .base act =>
    if admits act then (Async.step asyncRt cfg w.base act).map fun b => w.follow b act else none
  | .poll j =>
    match w.base.phase with
    | .polling idx f _ => some (w.pollWait j idx f)
    -- `NO_TASK` is being polled
    | _ => some w
  | .drop j => some (w.dropWait j)

variable {M N K : ℕ} {asyncRt : Bool} {cfg : Config} {w w' : World M N K} {idx : ℕ}

/-- The last poll of the task got `Pending` from a wait on the event. -/
def Awaits (w : World M N K) (idx : ℕ) : Prop :=
  ∃ j, (w.waits j).owner = some idx ∧ (w.waits j).awaited = true

instance : Decidable (Awaits w idx) :=
  inferInstanceAs (Decidable (∃ j, (w.waits j).owner = some idx ∧ (w.waits j).awaited = true))

/-- The task is suspended in a wait on the event. -/
def Suspended (w : World M N K) (idx : ℕ) : Prop :=
  (w.base.exec.slots idx).future.isSome = true ∧ Awaits w idx

/-- Between polls, a set flag and a suspended task mean that a suspended task is ready. -/
def NoForgottenWaiter (w : World M N K) : Prop :=
  w.polled = none → w.event.signaled = true → (∃ idx < N, Suspended w idx) →
    ∃ idx < N, Suspended w idx ∧ (w.base.exec.slots idx).ready = true

/-- Dropping a wait leaves the registration that another task has made. -/
def DropsOwn (w : World M N K) : Prop :=
  ∀ j idx, w.event.asyncWaiter = some idx → (w.waits j).future ≠ w.registrant →
    (w.dropWait j).event.asyncWaiter = some idx

/-- The steps after which no waiter is forgotten: a wait is not polled while another task is
registered (unless the flag is set), the event is not signaled between the registration of a task
and the end of its poll, and a registered wait is not dropped while its task awaits another. -/
def Careful (w : World M N K) : Act K → Prop
  | .poll _ => w.event.signaled = true ∨ w.event.asyncWaiter = none ∨
      w.event.asyncWaiter = w.polled
  | .base (.signal i) => i = 0 → ∀ idx ∈ w.polled, w.event.asyncWaiter = some idx → ¬ Awaits w idx
  | .drop j => w.event.asyncWaiter = (w.waits j).waiter → ∀ idx ∈ w.event.asyncWaiter,
      ∀ k, k ≠ j → (w.waits k).owner = some idx → (w.waits k).awaited = false
  | _ => True

instance : (a : Act K) → Decidable (Careful w a)
  | .poll _ => inferInstanceAs (Decidable (_ ∨ _ ∨ _))
  | .drop j => inferInstanceAs (Decidable (w.event.asyncWaiter = (w.waits j).waiter →
      ∀ idx ∈ w.event.asyncWaiter,
        ∀ k, k ≠ j → (w.waits k).owner = some idx → (w.waits k).awaited = false))
  | .base (.signal i) => inferInstanceAs (Decidable
      (i = 0 → ∀ idx ∈ w.polled, w.event.asyncWaiter = some idx → ¬ Awaits w idx))
  | .base (.spawn _) | .base .pollOnce | .base .advance | .base (.pollReturns _)
  | .base (.wakeTask _) | .base .tickUpdate | .base (.clear _) | .base (.eventWait _)
  | .base (.eventLeave _ _) | .base (.pollSleep _) | .base (.pollEvent _ _)
  | .base (.dropEvent _ _) | .base (.sched _) => isTrue trivial

/-- The steps after which a wait drops the registration of its own task only: a registered wait is
not handed on to a task that polls it, and no task polls a wait while there is one that an earlier
task of its slot has registered. -/
def PollsOwn (w : World M N K) : Act K → Prop
  | .poll j => ∀ idx ∈ w.polled, ∀ f ∈ w.base.phase.polledAt idx,
      ((w.waits j).waiter = none ∨ (w.waits j).future = some f) ∧
        ∀ k, (w.waits k).waiter = some idx → (w.waits k).future = some f
  | _ => True

instance : (a : Act K) → Decidable (PollsOwn w a)
  | .poll j => inferInstanceAs (Decidable (∀ idx ∈ w.polled, ∀ f ∈ w.base.phase.polledAt idx,
      ((w.waits j).waiter = none ∨ (w.waits j).future = some f) ∧
        ∀ k, (w.waits k).waiter = some idx → (w.waits k).future = some f))
  | .drop _ | .base _ => isTrue trivial

end OpenIon.Sched.Async.EventWaits
