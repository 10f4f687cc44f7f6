import OpenIon.Sched.Event
import OpenIon.Sched.Parked

/-! # Tasks that block on an event

The tasks call `Event::wait`; tasks and interrupt handlers call `signal` and `clear`
between any two sections. A signal is handed to the first waiter or stored in the
flag, and a task waits only while the flag is clear, so a set flag means that nobody
waits.
-/
namespace OpenIon.Sched.EventTasks
open Lib Async

/-- The scheduler, the event and the tasks about to leave the queue again after they could not
block. The last two fields count the granted waits and the signals; the code does not read
them. -/
structure World (M N : ℕ) (φ : Type) where
  sched : State
  executor : Executor N φ
  event : EventInner M
  leaving : TaskPtr → Bool
  granted : ℕ
  signals : ℕ

inductive Act where
  | wait
  | leave
  | signal
  | clear
  | sched (op : Op)

variable {M N : ℕ} {φ : Type}

namespace World

def new (M : ℕ) (s : State) (e : Executor N φ) : World M N φ :=
  ⟨s, e, .new M, fun _ => false, 0, 0⟩

def wait (w : World M N φ) (c : TaskPtr) : World M N φ :=
  match w.event.wait w.sched with
  | (.granted, s, ev) => { w with sched := s, event := ev, granted := w.granted + 1 }
  | (.leaving, s, ev) =>
    { w with sched := s, event := ev, leaving := Function.update w.leaving c true }
  | (_, s, ev) => { w with sched := s, event := ev }

def leave (w : World M N φ) (c : TaskPtr) : World M N φ :=
  { w with event := w.event.leave c, leaving := Function.update w.leaving c false }

/-- A signal that takes a task out of the queue grants its wait. -/
def signal (cfg : Config) (w : World M N φ) : World M N φ :=
  match w.event.signal cfg w.sched w.executor with
  | (_, s, e, ev) =>
    { w with
      sched := s
      executor := e
      event := ev
      granted := if (wakeOne cfg w.sched w.event.waiters).1 then w.granted + 1 else w.granted
      signals := w.signals + 1 }

/-- Only this event has the pointers of its waiters. -/
def admits (w : World M N φ) : Op → Bool
  | .wake task => !w.event.waiters.contains task
  | .delay _ | .block | .terminate => w.sched.currentTcb.all fun c => !w.leaving c
  | _ => true

end World

def step (cfg : Config) (w : World M N φ) : Act → Option (World M N φ)
  | .wait => (w.sched.caller.filter fun c => !w.leaving c).map w.wait
  | .leave => (w.sched.caller.filter fun c => w.leaving c).map w.leave
  | .signal => some (w.signal cfg)
  | .clear => some { w with event := w.event.clear }
  | .sched op =>
    if w.admits op then (Riscv.step cfg w.sched op).map fun s => { w with sched := s } else none

variable {cfg : Config} {w w' : World M N φ} {l : List TaskPtr} {c : TaskPtr} {a : Act}

/-- No flag is set while a task is blocked in the queue. -/
def NoMissedSignal (w : World M N φ) : Prop :=
  w.event.signaled = true →
    ∀ p, w.event.waiters.contains (some p) = true → (w.sched.heap p).state ≠ .blocked

/-- The waiters are the blocked tasks of the list `l`, and the flag stands for a signal that
nobody has got. -/
structure Waiting (cfg : Config) (w : World M N φ) (l : List TaskPtr) : Prop where
  parked : Parked cfg w.sched w.event.waiters l
  stays : ∀ p, w.leaving p = false
  noAsync : w.event.asyncWaiter = none
  flag : w.event.signaled = true → l = []
  count : w.granted + w.event.signaled.toNat ≤ w.signals

theorem Waiting.wait (h : Waiting cfg w l) (hc : w.sched.caller = some c) :
    ∃ l', Waiting cfg (w.wait c) l' := by
  rcases State.caller_eq_some.mp hc with ⟨hcur, hr⟩
  have hcount := h.count
  rcases hflag : w.event.signaled with - | -
  · rcases h.parked.enqueueCurrent hcur hr with hfull | ⟨s, q, hpush, hblock, hnew⟩
    · have hwait : w.event.wait w.sched = (.refused, w.sched, w.event) := by
        simp [EventInner.wait, hcur, hflag, hfull]
      refine ⟨l, ?_⟩
      simp only [World.wait, hwait]
      exact h
    · have hwait : w.event.wait w.sched = (.blocked, s, { w.event with waiters := q }) := by
        simp [EventInner.wait, hcur, hflag, hpush, hblock]
      refine ⟨l ++ [c], ?_⟩
      simp only [World.wait, hwait]
      refine ⟨hnew, h.stays, h.noAsync, ?_, hcount⟩
      intro hset
      exact absurd hset (Bool.eq_false_iff.mp hflag)
  · have hwait : w.event.wait w.sched = (.granted, w.sched, { w.event with signaled := false }) := by
      simp [EventInner.wait, hcur, hflag]
    refine ⟨l, ?_⟩
    simp only [World.wait, hwait]
    refine ⟨h.parked, h.stays, h.noAsync, (by simp), ?_⟩
    simpa [hflag] using hcount

theorem Waiting.signal (h : Waiting cfg w l) (hcpu : cfg.maxCpus = 1) :
    ∃ l', Waiting cfg (w.signal cfg) l' := by
  have hcount := h.count
  cases l with
  | nil =>
    refine ⟨[], ?_⟩
    simp only [World.signal, EventInner.signal, h.parked.wakeOne_nil, h.noAsync]
    refine ⟨h.parked, h.stays, rfl, fun _ => rfl, ?_⟩
    exact Nat.succ_le_succ ((Nat.le_add_right _ _).trans hcount)
  | cons p l =>
    rcases h.parked.wakeOne_cons hcpu with ⟨s, q, hwake, hnew⟩
    have hclear : w.event.signaled = false := by
      rw [Bool.eq_false_iff]
      intro hset
      simpa using h.flag hset
    refine ⟨l, ?_⟩
    simp only [World.signal, EventInner.signal, hwake]
    refine ⟨hnew, h.stays, h.noAsync, ?_, ?_⟩
    · intro hset
      simp [hclear] at hset
    · simpa [hclear] using hcount

theorem Waiting.step (h : Waiting cfg w l) (hcpu : cfg.maxCpus = 1)
    (hstep : step cfg w a = some w') : ∃ l', Waiting cfg w' l' := by
  cases a with
  | wait =>
    rcases Option.map_eq_some_iff.mp hstep with ⟨c, hc, rfl⟩
    exact h.wait (Option.filter_eq_some_iff.mp hc).1
  | leave =>
    rcases Option.map_eq_some_iff.mp hstep with ⟨c, hc, rfl⟩
    have hleaving := (Option.filter_eq_some_iff.mp hc).2
    simp [h.stays c] at hleaving
  | signal =>
    cases hstep
    exact h.signal hcpu
  | clear =>
    cases hstep
    have hcount := h.count
    exact ⟨l, h.parked, h.stays, h.noAsync, (by rintro ⟨⟩), (Nat.le_add_right _ _).trans hcount⟩
  | sched op =>
    simp only [EventTasks.step, Option.ite_none_right_eq_some] at hstep
    rcases hstep with ⟨hop, hs⟩
    rcases Option.map_eq_some_iff.mp hs with ⟨s, hstep, rfl⟩
    have hop' : ∀ p ∈ l, op ≠ .wake (some p) := by
      rintro p hp rfl
      simp [World.admits, h.parked.holds.contains_iff.mpr hp] at hop
    exact ⟨l, h.parked.sched hcpu hop' hstep, h.stays, h.noAsync, h.flag, h.count⟩

/-- In every reachable state at most as many waits were granted as signals were sent, and no
task is blocked in the queue while the flag is set. -/
theorem event_grants_bounded (M : ℕ) (cfg : Config) (hcpu : cfg.maxCpus = 1)
    (idle root : TaskArgs) (uninit : Heap) (s : State)
    (hs : initSystemTasks cfg idle root (init cfg uninit) = some s) (e : Executor N φ)
    (acts : List Act) (w : World M N φ) (hrun : run (step cfg) (World.new M s e) acts = some w) :
    w.granted ≤ w.signals ∧ NoMissedSignal w := by
  have hinv : ∃ l, Waiting cfg w l := by
    apply run_preserves _ _ hrun
    · rintro w a w' ⟨l, h⟩ hstep
      exact h.step hcpu hstep
    · exact ⟨[], .new hcpu hs, fun _ => rfl, rfl, (by simp), le_rfl⟩
  rcases hinv with ⟨l, h⟩
  refine ⟨(Nat.le_add_right _ _).trans h.count, ?_⟩
  intro hset p hp
  rw [h.parked.holds.contains_iff, h.flag hset] at hp
  simp at hp

/-- Task 2 waits and is woken by the first signal; the second one is stored and granted to
root. -/
theorem two_signals_two_grants :
    ∃ s w, initSystemTasks .small (.ofPriority 0) (.ofPriority 1) (init .small .blank) = some s ∧
      run (step .small) (World.new 2 s (.new 1 Unit)) [.sched .schedule,
        .sched (.createTask (.ofPriority 1)), .sched .schedule, .wait, .sched .schedule, .signal,
        .signal, .wait] = some w ∧ w.granted = 2 ∧ w.granted ≤ w.signals ∧ NoMissedSignal w := by
  have htest : ((initSystemTasks .small (.ofPriority 0) (.ofPriority 1) (init .small .blank)).bind
      fun s => run (step .small) (World.new 2 s (.new 1 Unit)) [.sched .schedule,
        .sched (.createTask (.ofPriority 1)), .sched .schedule, .wait, .sched .schedule, .signal,
        .signal, .wait]).any (fun w => decide (w.granted = 2)) = true := by
    decide +kernel
  rcases (Option.any_eq_true _ _).mp htest with ⟨w, hw, hgranted⟩
  rcases Option.bind_eq_some_iff.mp hw with ⟨s, hs, hrun⟩
  exact ⟨s, w, hs, hrun, of_decide_eq_true hgranted,
    event_grants_bounded 2 .small rfl _ _ _ s hs _ _ w hrun⟩

end OpenIon.Sched.EventTasks
