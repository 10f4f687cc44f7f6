import OpenIon.Sched.Placement.Dispatch
import OpenIon.Sched.Placement.Sleep

/-! # What the current task does to itself

A running current task may go to sleep, block or terminate. It stays the current
task until the next decision, but it is no longer running.
-/
namespace OpenIon.Sched
open Lib

variable {cfg : Config} {s s' : State} {run : Option TaskPtr} {rq : ℕ → List TaskPtr}
  {sl fl : List TaskPtr} {c : TaskPtr} {t : TaskControlBlock}

def State.currentRunning (s : State) : Bool := s.currentTcb.any s.isRunning

theorem State.currentRunning_iff :
    s.currentRunning = true ↔ ∃ c, s.currentTcb = some c ∧ (s.heap c).state = .running := by
  cases hc : s.currentTcb with
  | none => simp [State.currentRunning, hc]
  | some c => simp [State.currentRunning, hc, State.isRunning]

variable (h : Placed cfg s run rq sl fl none) (hcur : s.currentTcb = some c)
  (hr : (s.heap c).state = .running)
include h hcur hr

theorem Placed.takeRunning :
    run = some c ∧ (s.heap c).next = none ∧ Placed cfg s run rq sl fl (some c) := by
  have hc := h.current_task c hcur
  have hplace := h.inPlace hc
  rw [Place, hr] at hplace
  exact ⟨hplace.1, hplace.2.1, h.takeOff hc hplace.2.2 (by simp [hr])⟩

theorem Placed.stopRunning (hq : t.queued = (s.heap c).queued)
    (hprio : t.priority = (s.heap c).priority)
    (ht : t.state = .blocked ∨ t.state = .terminated) :
    Placed cfg (s.setTask c t) run rq sl fl none := by
  have hc := h.current_task c hcur
  have hout := (h.takeRunning hcur hr).2.2
  have hqueued : t.queued = false := by rw [hq, (hout.taken c rfl).2]
  apply (hout.modify hqueued (by rw [hprio]; exact h.priority c hc)).putOff
  rw [State.heap_setTask, Heap.set_self, Place]
  rcases ht with ht | ht
  · rw [ht]
    exact hqueued
  · rw [ht]
    exact hqueued

/-- `delay` puts the current task at the head of the sleep list. -/
theorem Placed.delay (ticks : UInt32) :
    Placed cfg (delay s ticks).2 run rq (c :: sl) fl none ∧ Frame s (delay s ticks).2 {c} ∧
      ((delay s ticks).2.heap c).state = .sleeping ∧
      (delay s ticks).2.currentTcb = s.currentTcb ∧
      (delay s ticks).2.nextTcb = s.nextTcb := by
  have hout := (h.takeRunning hcur hr).2.2
  have hdelay : (Sched.delay s ticks).2 = { s.setTask c { s.heap c with
      state := .sleeping, wakeupTick := s.ticks + ticks, next := s.sleepQueue } with
      sleepQueue := some c } := by
    simp only [Sched.delay, hcur]
  rw [hdelay]
  refine ⟨?_, ?_, ?_, rfl, rfl⟩
  · apply (hout.modify (t := { s.heap c with
      state := .sleeping, wakeupTick := s.ticks + ticks, next := s.sleepQueue })
      (hout.taken c rfl).2 (h.priority c (h.current_task c hcur))).putSleeper
    · simp
    · rw [State.heap_setTask, Heap.set_self]
      rfl
  · have hset : Frame s (s.setTask c { s.heap c with
        state := .sleeping, wakeupTick := s.ticks + ticks, next := s.sleepQueue }) {c} :=
      Frame.setTask rfl rfl
    exact hset.trans (Frame.of_heap_eq rfl rfl)
  · change ((s.heap.set c _) c).state = .sleeping
    rw [Heap.set_self]

theorem Placed.blockCurrentTaskIrqDisabled :
    ∃ s', blockCurrentTaskIrqDisabled s = (true, s') ∧ Placed cfg s' run rq sl fl none ∧
      Frame s s' {c} ∧ (s'.heap c).state = .blocked ∧ s'.currentTcb = s.currentTcb ∧
      s'.nextTcb = s.nextTcb := by
  refine ⟨s.setTask c { s.heap c with state := .blocked, wakeupTick := 0, next := none }, ?_, ?_,
    Frame.setTask rfl rfl, ?_, rfl, rfl⟩
  · simp [Sched.blockCurrentTaskIrqDisabled, hcur, State.isRunning, hr]
  · exact h.stopRunning hcur hr rfl rfl (.inl rfl)
  · simp

/-- `terminate_current` is a decision taken with a terminated current task. -/
theorem Placed.terminateCurrent (hcpu : cfg.maxCpus = 1) :
    ∃ m, Sched.terminateCurrent cfg s = Sched.scheduleCpuLocked cfg m 0 ∧
      Placed cfg m m.currentTcb rq sl fl none ∧ Frame s m {c} ∧
      (m.heap c).state = .terminated ∧ m.currentTcb = s.currentTcb ∧ m.nextTcb = s.nextTcb ∧
      m.ticks = s.ticks := by
  have hrun := (h.takeRunning hcur hr).1
  refine ⟨s.setTask c { s.heap c with state := .terminated, next := none }, ?_, ?_,
    Frame.setTask rfl rfl, ?_, rfl, rfl, rfl⟩
  · simp only [Sched.terminateCurrent, hcur, currentSchedulerCpuId_single hcpu]
  · change Placed cfg _ s.currentTcb rq sl fl none
    rw [hcur, ← hrun]
    exact h.stopRunning hcur hr rfl rfl (.inr rfl)
  · simp

end OpenIon.Sched
