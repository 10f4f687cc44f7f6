import OpenIon.Sched.Event
import OpenIon.Sched.Machine

/-! # The executor among interrupts and other tasks

`poll_once` holds the lock of the executor only while it takes a future out of its
slot and while it puts it back or retires it. In between the future is polled, and
at any point interrupts, other tasks and the polled future itself may spawn, wake,
signal, or register sleeps and event waits. The answers of the polls are part of
the run.
-/
namespace OpenIon.Sched.Async
open Lib

inductive Poll where
  | ready
  | pending
  deriving DecidableEq

/-- Where `poll_once` stands, with the number of futures polled so far. -/
inductive Phase where
  | idle
  /-- About to look at slot `idx`. -/
  | scanning (idx polled : ℕ)
  /-- Outside the lock, with the future that was taken out of slot `idx`. -/
  | polling (idx future polled : ℕ)
  deriving DecidableEq

/-- `CURRENT_POLL_TASK`, which only the future that is being polled reads. -/
def Phase.currentPollTask : Phase → Option ℕ
  | polling idx _ _ => some idx
  | _ => none

/-- The scheduler, the events and the executor. A future is the number of futures that `spawn`
accepted before it. The last four fields record how many were accepted, the slots they were given
and which have been polled and have returned `Ready`; the code does not read them. -/
structure World (M N : ℕ) where
  sched : State
  events : ℕ → EventInner M
  exec : Executor N ℕ
  phase : Phase
  accepted : ℕ
  home : ℕ → ℕ
  started : ℕ → Bool
  finished : ℕ → Bool

inductive Act where
  | spawn (name : String)
  | pollOnce
  | advance
  | pollReturns (result : Poll)
  | wakeTask (idx : ℕ)
  | tickUpdate
  | signal (event : ℕ)
  | clear (event : ℕ)
  | eventWait (event : ℕ)
  | eventLeave (event : ℕ) (task : TaskPtr)
  | pollSleep (sleep : SleepTicks)
  | pollEvent (event : ℕ) (waiter : Option ℕ)
  | dropEvent (event : ℕ) (waiter : Option ℕ)
  | sched (op : Op)

namespace World

variable {M N : ℕ}

def new (M N : ℕ) (s : State) : World M N where
  sched := s
  events _ := EventInner.new M
  exec := Executor.new N ℕ
  phase := .idle
  accepted := 0
  home _ := 0
  started _ := false
  finished _ := false

def setEvent (w : World M N) (i : ℕ) (ev : EventInner M) : World M N :=
  { w with events := Function.update w.events i ev }

def spawn (asyncRt : Bool) (w : World M N) (name : String) : World M N :=
  match w.exec.spawn asyncRt name w.accepted with
  | (.ok idx, e) =>
    { w with
      exec := e
      accepted := w.accepted + 1
      home := Function.update w.home w.accepted idx }
  | (.error _, e) => { w with exec := e }

/-- The section of `poll_once` that looks at one slot, or the end of its loop. -/
def advance (w : World M N) (idx polled : ℕ) : World M N :=
  if idx < N then
    match w.exec.take idx with
    | (some f, e) =>
      { w with
        exec := e
        phase := .polling idx f polled
        started := Function.update w.started f true }
    | (none, e) => { w with exec := e, phase := .scanning (idx + 1) polled }
  else { w with phase := .idle }

/-- The section of `poll_once` after a poll. -/
def pollReturns (w : World M N) (idx future polled : ℕ) : Poll → World M N
  | .ready =>
    { w with
      exec := w.exec.complete idx
      phase := .scanning (idx + 1) (polled + 1)
      finished := Function.update w.finished future true }
  | .pending =>
    { w with exec := w.exec.putBack idx future, phase := .scanning (idx + 1) (polled + 1) }

def signal (cfg : Config) (w : World M N) (i : ℕ) : World M N :=
  let (_, s, e, ev) := (w.events i).signal cfg w.sched w.exec
  { w with sched := s, exec := e }.setEvent i ev

def eventWait (w : World M N) (i : ℕ) : World M N :=
  let (_, s, ev) := (w.events i).wait w.sched
  { w with sched := s }.setEvent i ev

end World

/-- One section. The executor task calls `poll_once` only in builds with the async runtime. -/
def step {M N : ℕ} (asyncRt : Bool) (cfg : Config) (w : World M N) : Act → Option (World M N)
  | .spawn name => some (w.spawn asyncRt name)
  | .pollOnce => if asyncRt ∧ w.phase = .idle then some { w with phase := .scanning 0 0 } else none
  | .advance =>
    match w.phase with
    | .scanning idx polled => some (w.advance idx polled)
    | _ => none
  | .pollReturns result =>
    match w.phase with
    | .polling idx future polled => some (w.pollReturns idx future polled result)
    | _ => none
  | .wakeTask idx => some { w with exec := w.exec.wakeTask idx }
  | .tickUpdate => some { w with exec := w.exec.tickUpdate asyncRt w.sched.ticks }
  | .signal i => some (w.signal cfg i)
  | .clear i => some (w.setEvent i (w.events i).clear)
  | .eventWait i => some (w.eventWait i)
  | .eventLeave i task => some (w.setEvent i ((w.events i).leave task))
  | .pollSleep f =>
    some { w with exec := (f.poll w.sched.ticks w.phase.currentPollTask w.exec).2.2 }
  | .pollEvent i waiter =>
    some (w.setEvent i ((w.events i).pollWait w.phase.currentPollTask waiter).2.2)
  | .dropEvent i waiter => some (w.setEvent i ((w.events i).dropWait waiter))
  | .sched op => (perform cfg w.sched op).map fun s => { w with sched := s }

variable {M N : ℕ} {asyncRt : Bool} {cfg : Config} {w w' : World M N} {act : Act}

def World.spawnAt (w : World M N) (name : String) (idx : ℕ) : World M N :=
  { w with
    exec := { w.exec.setSlot idx ⟨some w.accepted, name, true⟩ with
      spawned := w.exec.spawned + 1 }
    accepted := w.accepted + 1
    home := Function.update w.home w.accepted idx }

theorem World.spawn_of_free (name : String) (hrt : asyncRt = true)
    (hfree : ∃ j < N, w.exec.isFree j = true) :
    ∃ idx < N, w.exec.isFree idx = true ∧ (∀ j < idx, w.exec.isFree j = false) ∧
      w.spawn asyncRt name = w.spawnAt name idx := by
  rcases hfree with ⟨i, hi, hfi⟩
  cases hfind : (List.range N).find? w.exec.isFree with
  | none =>
    have hnot := List.find?_eq_none.mp hfind i (List.mem_range.mpr hi)
    exact absurd hfi hnot
  | some idx =>
    rcases List.find?_range_eq_some.mp hfind with ⟨hfree, hlt, hbelow⟩
    refine ⟨idx, List.mem_range.mp hlt, hfree, fun j hj => by simpa using hbelow j hj, ?_⟩
    have hN : N ≠ 0 := by omega
    simp [spawn, spawnAt, Executor.spawn, hrt, hN, hfind]

theorem World.spawn_of_full {name : String} (h : asyncRt = false ∨ ∀ j < N, w.exec.isFree j = false) :
    w.spawn asyncRt name = w := by
  rcases h with rfl | hfull
  · simp [spawn, Executor.spawn]
  · have hfind : (List.range N).find? w.exec.isFree = none := by
      apply List.find?_eq_none.mpr
      intro j hj
      simp [hfull j (List.mem_range.mp hj)]
    cases asyncRt with
    | false => simp [spawn, Executor.spawn]
    | true =>
      by_cases hN : N = 0
      · simp [spawn, Executor.spawn, hN]
      · simp [spawn, Executor.spawn, hN, hfind]

/-- What a step can do to the executor and to what is recorded about futures. -/
inductive Move (asyncRt : Bool) (w : World M N) : Act → World M N → Prop where
  | woke (act : Act) (w' : World M N) (exec : Woke w.exec w'.exec) (phase : w'.phase = w.phase)
      (accepted : w'.accepted = w.accepted) (home : w'.home = w.home)
      (started : w'.started = w.started) (finished : w'.finished = w.finished) : Move asyncRt w act w'
  | spawn (name : String) (idx : ℕ) (enabled : asyncRt = true) (lt : idx < N)
      (free : w.exec.isFree idx = true) (below : ∀ j < idx, w.exec.isFree j = false) :
      Move asyncRt w (.spawn name) (w.spawnAt name idx)
  /-- A step of `poll_once` that changes no slot. -/
  | scan (act : Act) (phase : Phase) (before : w.phase.currentPollTask = none)
      (after : phase.currentPollTask = none) : Move asyncRt w act { w with phase := phase }
  /-- The ready flag of a slot without a future is reset. -/
  | reset (idx polled : ℕ) (before : w.phase.currentPollTask = none)
      (free : (w.exec.slots idx).future = none) : Move asyncRt w .advance { w with
        exec := w.exec.takeSlot idx
        phase := .scanning (idx + 1) polled }
  | take (idx f polled : ℕ) (before : w.phase.currentPollTask = none) (lt : idx < N)
      (future : (w.exec.slots idx).future = some f) : Move asyncRt w .advance { w with
        exec := w.exec.takeSlot idx
        phase := .polling idx f polled
        started := Function.update w.started f true }
  | pollReturns (idx f polled : ℕ) (result : Poll) (before : w.phase = .polling idx f polled) :
      Move asyncRt w (.pollReturns result) (w.pollReturns idx f polled result)

theorem World.spawn_move (name : String) :
    Move asyncRt w (.spawn name) (w.spawn asyncRt name) := by
  by_cases hfull : asyncRt = false ∨ ∀ j < N, w.exec.isFree j = false
  · rw [spawn_of_full hfull]
    exact .woke _ w (.refl _) rfl rfl rfl rfl rfl
  · simp only [not_or, Bool.not_eq_false, not_forall, exists_prop] at hfull
    rcases spawn_of_free name hfull.1 hfull.2 with ⟨idx, hlt, hfree, hbelow, heq⟩
    rw [heq]
    exact .spawn name idx hfull.1 hlt hfree hbelow

/-- A section of `poll_once` goes on to the next slot, resets the flag of a slot without a future,
or takes a future. -/
theorem World.advance_cases (w : World M N) (idx polled : ℕ) :
    (∃ phase : Phase, phase.currentPollTask = none ∧
      w.advance idx polled = { w with phase := phase }) ∨
    ((w.exec.slots idx).future = none ∧ w.advance idx polled =
      { w with exec := w.exec.takeSlot idx, phase := .scanning (idx + 1) polled }) ∨
    ∃ f, idx < N ∧ (w.exec.slots idx).future = some f ∧ w.advance idx polled = { w with
      exec := w.exec.takeSlot idx
      phase := .polling idx f polled
      started := Function.update w.started f true } := by
  by_cases hlt : idx < N
  · cases hready : (w.exec.slots idx).ready with
    | false =>
      left
      exact ⟨.scanning (idx + 1) polled, rfl, by simp [advance, hlt, Executor.take, hready]⟩
    | true =>
      cases hfuture : (w.exec.slots idx).future with
      | none =>
        right; left
        exact ⟨rfl, by simp [advance, hlt, Executor.take, hready, hfuture]⟩
      | some f =>
        right; right
        exact ⟨f, hlt, rfl, by simp [advance, hlt, Executor.take, hready, hfuture]⟩
  · left
    exact ⟨.idle, rfl, by rw [advance, if_neg hlt]⟩

theorem World.advance_move {idx polled : ℕ} (hphase : w.phase = .scanning idx polled) :
    Move asyncRt w .advance (w.advance idx polled) := by
  have hbefore : w.phase.currentPollTask = none := by
    rw [hphase]
    rfl
  rcases w.advance_cases idx polled with ⟨phase, hafter, heq⟩ | ⟨hfuture, heq⟩ | ⟨f, hlt, hfuture, heq⟩
  · rw [heq]
    exact .scan _ phase hbefore hafter
  · rw [heq]
    exact .reset idx polled hbefore hfuture
  · rw [heq]
    exact .take idx f polled hbefore hlt hfuture

theorem step_advance (h : step asyncRt cfg w .advance = some w') :
    ∃ idx polled, w.phase = .scanning idx polled ∧ w' = w.advance idx polled := by
  simp only [step] at h
  split at h
  next idx polled hphase => exact ⟨idx, polled, hphase, (Option.some.inj h).symm⟩
  next => simp at h

theorem step_pollReturns {result : Poll} (h : step asyncRt cfg w (.pollReturns result) = some w') :
    ∃ idx f polled, w.phase = .polling idx f polled ∧ w' = w.pollReturns idx f polled result := by
  simp only [step] at h
  split at h
  next idx f polled hphase => exact ⟨idx, f, polled, hphase, (Option.some.inj h).symm⟩
  next => simp at h

theorem step_move (h : step asyncRt cfg w act = some w') : Move asyncRt w act w' := by
  cases act with
  | spawn name =>
    cases h
    exact World.spawn_move name
  | pollOnce =>
    simp only [step, Option.ite_none_right_eq_some, Option.some.injEq] at h
    rcases h with ⟨⟨-, hidle⟩, rfl⟩
    exact .scan _ _ (by rw [hidle]; rfl) rfl
  | advance =>
    rcases step_advance h with ⟨idx, polled, hphase, rfl⟩
    exact World.advance_move hphase
  | pollReturns result =>
    rcases step_pollReturns h with ⟨idx, f, polled, hphase, rfl⟩
    exact .pollReturns idx f polled result hphase
  | wakeTask idx =>
    cases h
    exact .woke _ _ (Woke.refl _).wakeTask rfl rfl rfl rfl rfl
  | tickUpdate =>
    cases h
    exact .woke _ _ (.tickUpdate asyncRt _) rfl rfl rfl rfl rfl
  | signal i =>
    cases h
    exact .woke _ _ (EventInner.signal_woke cfg _ _ _) rfl rfl rfl rfl rfl
  | pollSleep f =>
    cases h
    exact .woke _ _ (.pollSleep f _ _) rfl rfl rfl rfl rfl
  | clear i | eventWait i | eventLeave i task | pollEvent i waiter | dropEvent i waiter =>
    cases h
    exact .woke _ _ (.refl _) rfl rfl rfl rfl rfl
  | sched op =>
    rcases Option.map_eq_some_iff.mp h with ⟨s, -, rfl⟩
    exact .woke _ _ (.refl _) rfl rfl rfl rfl rfl

end OpenIon.Sched.Async
