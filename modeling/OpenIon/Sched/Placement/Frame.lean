import OpenIon.Sched.State
import OpenIon.Sched.ReadyQueue.Push

/-! # What an operation leaves alone

Every operation of the scheduler keeps the tasks, their ids and priorities, and
apart from links it touches the blocks of few tasks only.
-/
namespace OpenIon.Sched

variable {s s' : State} {p : TaskPtr}

/-- The tasks of `s` are still there with their ids and priorities, and the blocks of all but
the tasks in `changed` differ at most in their links. -/
structure Frame (s s' : State) (changed : Set TaskPtr) : Prop where
  task : ∀ a, s.IsTask a → s'.IsTask a
  id : ∀ a, s.IsTask a → (s'.heap a).id = (s.heap a).id
  priority : ∀ a, s.IsTask a → (s'.heap a).priority = (s.heap a).priority
  other : ∀ a, s.IsTask a → a ∉ changed → s'.heap a = { s.heap a with next := (s'.heap a).next }
  idleTask : (s'.cpuScheds 0).idleTask = (s.cpuScheds 0).idleTask

namespace Frame

variable {m : State} {rq : ℕ → List TaskPtr} {changed changed' : Set TaskPtr}

theorem state (h : Frame s s' changed) (hp : s.IsTask p) (hc : p ∉ changed) :
    (s'.heap p).state = (s.heap p).state := by
  rw [h.other p hp hc]

theorem of_heap_eq (hpool : s'.pool = s.pool)
    (hidle : (s'.cpuScheds 0).idleTask = (s.cpuScheds 0).idleTask) : Frame s s' changed := by
  have hheap : s'.heap = s.heap := by rw [State.heap, State.heap, hpool]
  refine ⟨?_, ?_, ?_, ?_, hidle⟩
  · intro a ha
    rwa [State.IsTask, hpool]
  · intro a _
    rw [hheap]
  · intro a _
    rw [hheap]
  · intro a _ _
    rw [hheap]

theorem trans (h : Frame s m changed) (h' : Frame m s' changed) : Frame s s' changed := by
  refine ⟨?_, ?_, ?_, ?_, h'.idleTask.trans h.idleTask⟩
  · intro a ha
    exact h'.task a (h.task a ha)
  · intro a ha
    rw [h'.id a (h.task a ha), h.id a ha]
  · intro a ha
    rw [h'.priority a (h.task a ha), h.priority a ha]
  · intro a ha hc
    rw [h'.other a (h.task a ha) hc, h.other a ha hc]

theorem mono (h : Frame s s' changed) (hsub : changed ⊆ changed') : Frame s s' changed' :=
  { h with other := fun a ha hc => h.other a ha (fun hmem => hc (hsub hmem)) }

theorem of_other (htask : ∀ a, s.IsTask a → s'.IsTask a) (hid : (s'.heap p).id = (s.heap p).id)
    (hprio : (s'.heap p).priority = (s.heap p).priority)
    (hother : ∀ a, a ≠ p → s'.heap a = { s.heap a with next := (s'.heap a).next })
    (hidle : (s'.cpuScheds 0).idleTask = (s.cpuScheds 0).idleTask) : Frame s s' {p} := by
  refine ⟨htask, fun a _ => ?_, fun a _ => ?_, fun a _ => hother a, hidle⟩
  · by_cases ha : a = p
    · rw [ha, hid]
    · rw [hother a ha]
  · by_cases ha : a = p
    · rw [ha, hprio]
    · rw [hother a ha]

theorem setTask {t : TaskControlBlock} (hid : t.id = (s.heap p).id)
    (hprio : t.priority = (s.heap p).priority) : Frame s (s.setTask p t) {p} :=
  of_other (fun _ ha => ha) (by simp [hid]) (by simp [hprio])
    (fun a ha => by rw [State.heap_setTask, Heap.set_of_ne ha]) rfl

theorem of_push {q : ReadyQueue} {h' : Heap} (hf : ReadyQueue.PushFrame s.heap h' rq p) :
    Frame s (s.setReadyQueue 0 q h') {p} :=
  of_other (fun _ ha => ha) (by rw [State.heap_setReadyQueue, hf.self])
    (by rw [State.heap_setReadyQueue, hf.self]) hf.other
    (by simp [State.setReadyQueue, State.setCpu, State.setHeap])

end Frame

end OpenIon.Sched
