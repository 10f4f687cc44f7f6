import OpenIon.Sched.Scheduler
import OpenIon.Sched.ReadyQueue.Wf

/-! # Where a task is

With one CPU every task has one place: a priority list, the sleep list, the
processor, or none of them while it is blocked or terminated. `Placed` states
this for all tasks except at most one, which an operation has taken out and not
yet put back. Each operation is a sequence of taking one task out of its place,
changing its control block, and putting it into a place again.
-/
namespace OpenIon.Sched
open Lib Mm

/-- The place that the state of a task asks for. `run` is the task the processor runs,
or will run after the pending switch. -/
def Place (t : TaskControlBlock) (run : Option TaskPtr) (rq : ℕ → List TaskPtr)
    (sl : List TaskPtr) (p : TaskPtr) : Prop :=
  match t.state with
  | .ready => p ∈ members rq
  | .running => run = some p ∧ t.next = none ∧ t.queued = false
  | .sleeping => p ∈ sl ∧ t.queued = false
  | .blocked | .terminated => t.queued = false
  | .suspended => False

/-- The lists `rq`, `sl` and `fl` are the ready queue, the sleep list and the free list of
the state, and every task but `out` is in its place. -/
structure Placed (cfg : Config) (s : State) (run : Option TaskPtr) (rq : ℕ → List TaskPtr)
    (sl fl : List TaskPtr) (out : Option TaskPtr) : Prop where
  pool : s.pool.Wf cfg.taskCap fl
  ready : (s.cpuScheds 0).readyQueue.Wf s.heap rq
  sleep : Chain s.heap.next s.sleepQueue sl
  ready_mem : ∀ p ∈ members rq, s.IsTask p ∧ (s.heap p).state = .ready ∧ out ≠ some p
  sleep_mem : ∀ p ∈ sl, s.IsTask p ∧ (s.heap p).state = .sleeping ∧ out ≠ some p
  place : ∀ p, s.IsTask p → out ≠ some p → Place (s.heap p) run rq sl p
  taken : ∀ p, out = some p → s.IsTask p ∧ (s.heap p).queued = false
  priority : ∀ p, s.IsTask p → (s.heap p).priority < maxPriorities
  ids : s.taskIdCounter.toNat + fl.length = cfg.taskCap
  current_task : ∀ p, s.currentTcb = some p → s.IsTask p
  next_task : ∀ p, s.nextTcb = some p → s.IsTask p

theorem Place.mono {t : TaskControlBlock} {run : Option TaskPtr} {rq rq' : ℕ → List TaskPtr}
    {sl sl' : List TaskPtr} {p : TaskPtr} (h : Place t run rq sl p)
    (hrq : p ∈ members rq → p ∈ members rq') (hsl : p ∈ sl → p ∈ sl') : Place t run rq' sl' p := by
  unfold Place at h ⊢
  split at h
  · exact hrq h
  · exact h
  · exact ⟨hsl h.1, h.2⟩
  · exact h
  · exact h
  · exact h

namespace Placed

variable {cfg : Config} {s s' : State} {run run' : Option TaskPtr} {rq : ℕ → List TaskPtr}
  {sl fl : List TaskPtr} {out : Option TaskPtr} {p a : TaskPtr} {t : TaskControlBlock}

theorem inPlace (h : Placed cfg s run rq sl fl none) (hp : s.IsTask p) :
    Place (s.heap p) run rq sl p :=
  h.place p hp (Option.some_ne_none p).symm

/-- Placement does not see the switch pointers, the flags and counters of the CPUs, or time. -/
theorem of_eq (h : Placed cfg s run rq sl fl out) (hpool : s'.pool = s.pool)
    (hq : (s'.cpuScheds 0).readyQueue = (s.cpuScheds 0).readyQueue)
    (hsl : s'.sleepQueue = s.sleepQueue) (hid : s'.taskIdCounter = s.taskIdCounter)
    (hcur : ∀ p, s'.currentTcb = some p → s.IsTask p)
    (hnext : ∀ p, s'.nextTcb = some p → s.IsTask p) : Placed cfg s' run rq sl fl out := by
  have hheap : s'.heap = s.heap := by rw [State.heap, State.heap, hpool]
  have htask : ∀ p, s'.IsTask p ↔ s.IsTask p := by
    intro p
    rw [State.IsTask, State.IsTask, hpool]
  constructor
  · exact hpool ▸ h.pool
  · rw [hq, hheap]
    exact h.ready
  · rw [hsl, hheap]
    exact h.sleep
  · intro p hp
    rw [htask, hheap]
    exact h.ready_mem p hp
  · intro p hp
    rw [htask, hheap]
    exact h.sleep_mem p hp
  · intro p hp hout
    rw [hheap]
    exact h.place p ((htask p).mp hp) hout
  · intro p hp
    rw [htask, hheap]
    exact h.taken p hp
  · intro p hp
    rw [hheap]
    exact h.priority p ((htask p).mp hp)
  · exact hid ▸ h.ids
  · intro p hp
    exact (htask p).mpr (hcur p hp)
  · intro p hp
    exact (htask p).mpr (hnext p hp)

theorem not_mem_ready (h : Placed cfg s run rq sl fl (some p)) : p ∉ members rq := by
  intro hp
  exact (h.ready_mem p hp).2.2 rfl

theorem not_mem_sleep (h : Placed cfg s run rq sl fl (some p)) : p ∉ sl := by
  intro hp
  exact (h.sleep_mem p hp).2.2 rfl

/-- The task taken out may be changed freely, except that it stays unqueued. -/
theorem modify (h : Placed cfg s run rq sl fl (some p)) (hq : t.queued = false)
    (hprio : t.priority < maxPriorities) : Placed cfg (s.setTask p t) run rq sl fl (some p) := by
  have hne : ∀ a, (some p : Option TaskPtr) ≠ some a → a ≠ p := by
    rintro a ha rfl
    exact ha rfl
  have hframe : ∀ a, (some p : Option TaskPtr) ≠ some a → s.heap.set p t a = s.heap a := by
    intro a ha
    exact Heap.set_of_ne (hne a ha)
  constructor
  · exact h.pool.setData _
  · apply h.ready.congr
    · intro a ha
      rw [State.heap_setTask, hframe a (h.ready_mem a ha).2.2]
    · intro a ha
      rw [State.heap_setTask, hframe a (h.ready_mem a ha).2.2]
    · intro a ha
      rw [State.heap_setTask, hframe a (h.ready_mem a ha).2.2]
  · apply h.sleep.congr
    intro a ha
    simp only [Heap.next, State.heap_setTask, hframe a (h.sleep_mem a ha).2.2]
  · intro a ha
    rw [State.heap_setTask, hframe a (h.ready_mem a ha).2.2]
    exact h.ready_mem a ha
  · intro a ha
    rw [State.heap_setTask, hframe a (h.sleep_mem a ha).2.2]
    exact h.sleep_mem a ha
  · intro a ha hout
    rw [State.heap_setTask, hframe a hout]
    exact h.place a ha hout
  · intro a ha
    rw [← Option.some.inj ha]
    exact ⟨(h.taken p rfl).1, by simpa using hq⟩
  · intro a ha
    by_cases hap : a = p
    · simpa [hap] using hprio
    · rw [State.heap_setTask, Heap.set_of_ne hap]
      exact h.priority a ha
  · exact h.ids
  · exact h.current_task
  · exact h.next_task

/-- Put the task taken out where no list holds it: blocked, terminated, or running. -/
theorem putOff (h : Placed cfg s run rq sl fl (some p)) (hp : Place (s.heap p) run rq sl p) :
    Placed cfg s run rq sl fl none := by
  constructor
  · exact h.pool
  · exact h.ready
  · exact h.sleep
  · intro a ha
    exact ⟨(h.ready_mem a ha).1, (h.ready_mem a ha).2.1, (by simp)⟩
  · intro a ha
    exact ⟨(h.sleep_mem a ha).1, (h.sleep_mem a ha).2.1, (by simp)⟩
  · intro a ha _
    by_cases hap : a = p
    · exact hap ▸ hp
    · apply h.place a ha
      intro he
      exact hap (Option.some.inj he).symm
  · simp
  · exact h.priority
  · exact h.ids
  · exact h.current_task
  · exact h.next_task

theorem takeOff (h : Placed cfg s run rq sl fl none) (hp : s.IsTask p)
    (hq : (s.heap p).queued = false) (hs : (s.heap p).state ≠ .sleeping) :
    Placed cfg s run rq sl fl (some p) := by
  constructor
  · exact h.pool
  · exact h.ready
  · exact h.sleep
  · intro a ha
    refine ⟨(h.ready_mem a ha).1, (h.ready_mem a ha).2.1, ?_⟩
    intro he
    rw [Option.some.inj he] at hq
    simp [h.ready.queued_of_mem ha] at hq
  · intro a ha
    refine ⟨(h.sleep_mem a ha).1, (h.sleep_mem a ha).2.1, ?_⟩
    intro he
    rw [Option.some.inj he] at hs
    exact hs (h.sleep_mem a ha).2.1
  · intro a ha _
    exact h.inPlace ha
  · intro a ha
    rw [← Option.some.inj ha]
    exact ⟨hp, hq⟩
  · exact h.priority
  · exact h.ids
  · exact h.current_task
  · exact h.next_task

/-- While nobody in its place runs, any task may be named as the runner. -/
theorem rename_run (h : Placed cfg s run rq sl fl out)
    (hidle : ∀ p, run = some p → s.IsTask p → out ≠ some p → (s.heap p).state ≠ .running)
    (run' : Option TaskPtr) : Placed cfg s run' rq sl fl out := by
  refine { h with place := ?_ }
  intro a ha hout
  have hplace := h.place a ha hout
  unfold Place at hplace ⊢
  split at hplace
  case h_2 hrun => exact absurd hrun (hidle a hplace.1 ha hout)
  all_goals exact hplace

end Placed

end OpenIon.Sched
