import OpenIon.Sched.Placement.Basic
import OpenIon.Sched.ReadyQueue.Push
import OpenIon.Sched.ReadyQueue.Pop

/-! # Moves to and from the ready queue

A ready task that is out is always accepted by the queue: it is neither queued
nor linked, and the lists cannot be full while one control block is not on them.
-/
namespace OpenIon.Sched
open Lib Mm

namespace Placed

variable {cfg : Config} {s : State} {run : Option TaskPtr} {rq : ℕ → List TaskPtr}
  {sl fl : List TaskPtr} {p : TaskPtr}

/-- The lists hold fewer tasks than the pool has blocks when one task is out. -/
theorem room (h : Placed cfg s run rq sl fl (some p)) :
    (s.cpuScheds 0).readyQueue.taskCount < cfg.taskCap := by
  apply h.ready.room h.not_mem_ready
  · exact h.pool.live_lt p (h.taken p rfl).1
  · exact fun a ha => h.pool.live_lt a (h.ready_mem a ha).1

theorem accepts (h : Placed cfg s run rq sl fl (some p)) (hs : (s.heap p).state = .ready)
    (hn : (s.heap p).next = none) :
    ReadyQueue.Accepts cfg.taskCap (s.cpuScheds 0).readyQueue s.heap p where
  unqueued := (h.taken p rfl).2
  ready := hs
  unlinked := hn
  room := h.room
  priority := h.priority p (h.taken p rfl).1

/-- The queue never refuses a ready task that is out, and the push puts it in its place. -/
theorem putReady (h : Placed cfg s run rq sl fl (some p)) (hs : (s.heap p).state = .ready)
    (hn : (s.heap p).next = none) :
    ∃ q' h', (s.cpuScheds 0).readyQueue.push cfg.taskCap s.heap p = (true, q', h') ∧
      Placed cfg (s.setReadyQueue 0 q' h') run
        (Function.update rq (s.heap p).priority (rq (s.heap p).priority ++ [p])) sl fl none ∧
      ReadyQueue.PushFrame s.heap h' rq p := by
  have hacc := h.accepts hs hn
  have hpush := ReadyQueue.push_of_accepts hacc
  rcases h.ready.push hacc hpush with ⟨hw, hframe⟩
  refine ⟨_, _, hpush, ?_, hframe⟩
  generalize Heap.set _ _ _ = h' at hw hframe
  generalize ReadyQueue.mk _ _ _ _ = q' at hw
  have hmem := mem_members_append rq hacc.priority p
  have hout : ∀ a, a ≠ p → (some p : Option TaskPtr) ≠ some a := by
    intro a hap he
    exact hap (Option.some.inj he).symm
  have hstate : ∀ a, (h' a).state = (s.heap a).state ∧ (h' a).priority = (s.heap a).priority := by
    intro a
    by_cases hap : a = p
    · rw [hap, hframe.self]
      exact ⟨rfl, rfl⟩
    · rw [hframe.other a hap]
      exact ⟨rfl, rfl⟩
  constructor
  · exact h.pool.setData _
  · simpa using hw
  · apply h.sleep.congr
    intro a ha
    have hnr : a ∉ members rq := by
      intro har
      have hready := (h.ready_mem a har).2.1
      simp [(h.sleep_mem a ha).2.1] at hready
    have hap : a ≠ p := by
      rintro rfl
      exact h.not_mem_sleep ha
    exact congrArg TaskControlBlock.next (hframe.outside a hap hnr)
  · intro a ha
    rw [State.isTask_setReadyQueue, State.heap_setReadyQueue, (hstate a).1]
    rcases (hmem a).mp ha with ha | rfl
    · exact ⟨(h.ready_mem a ha).1, (h.ready_mem a ha).2.1, (by simp)⟩
    · exact ⟨(h.taken a rfl).1, hs, (by simp)⟩
  · intro a ha
    rw [State.isTask_setReadyQueue, State.heap_setReadyQueue, (hstate a).1]
    exact ⟨(h.sleep_mem a ha).1, (h.sleep_mem a ha).2.1, (by simp)⟩
  · intro a ha _
    rw [State.heap_setReadyQueue]
    by_cases har : a ∈ members rq ∨ a = p
    · have hready : (h' a).state = .ready := by
        rw [(hstate a).1]
        rcases har with har | rfl
        · exact (h.ready_mem a har).2.1
        · exact hs
      rw [Place, hready]
      exact (hmem a).mpr har
    · have hap : a ≠ p := fun he => har (.inr he)
      rw [hframe.outside a hap (fun he => har (.inl he))]
      apply (h.place a ha (hout a hap)).mono _ id
      intro ham
      exact (hmem a).mpr (.inl ham)
  · simp
  · intro a ha
    rw [State.heap_setReadyQueue, (hstate a).2]
    exact h.priority a ha
  · exact h.ids
  · exact h.current_task
  · exact h.next_task

theorem takeReady (h : Placed cfg s run rq sl fl none) (hne : members rq ≠ []) :
    ∃ i p l q', i < maxPriorities ∧ rq i = p :: l ∧
      (∀ a ∈ members rq, (s.heap a).priority ≤ i) ∧
      (s.cpuScheds 0).readyQueue.peekHighestPriority = i ∧
      (s.cpuScheds 0).readyQueue.popHighest s.heap =
        (some p, q', s.heap.set p { s.heap p with next := none, queued := false }) ∧
      Placed cfg (s.setReadyQueue 0 q' (s.heap.set p
        { s.heap p with next := none, queued := false })) run (Function.update rq i l) sl fl
        (some p) := by
  rcases h.ready.popHighest hne with ⟨i, p, l, q', hi, hl, hmax, hpeek, hpop, hw⟩
  refine ⟨i, p, l, q', hi, hl, hmax, hpeek, hpop, ?_⟩
  have hp : p ∈ members rq := mem_members.mpr ⟨i, hi, hl ▸ List.mem_cons_self⟩
  have hsub := h.ready.mem_members_pop hi hl
  constructor
  · exact h.pool.setData _
  · simpa using hw
  · apply h.sleep.congr
    intro a ha
    have hap : a ≠ p := by
      rintro rfl
      have hready := (h.ready_mem a hp).2.1
      simp [(h.sleep_mem a ha).2.1] at hready
    simp only [Heap.next, State.heap_setReadyQueue, Heap.set_of_ne hap]
  · intro a ha
    rcases (hsub a).mp ha with ⟨ham, hap⟩
    rw [State.heap_setReadyQueue, Heap.set_of_ne hap]
    exact ⟨(h.ready_mem a ham).1, (h.ready_mem a ham).2.1, fun he => hap (Option.some.inj he).symm⟩
  · intro a ha
    have hap : a ≠ p := by
      rintro rfl
      have hready := (h.ready_mem a hp).2.1
      simp [(h.sleep_mem a ha).2.1] at hready
    rw [State.heap_setReadyQueue, Heap.set_of_ne hap]
    exact ⟨(h.sleep_mem a ha).1, (h.sleep_mem a ha).2.1, fun he => hap (Option.some.inj he).symm⟩
  · intro a ha hout
    have hap : a ≠ p := by
      rintro rfl
      exact hout rfl
    rw [State.heap_setReadyQueue, Heap.set_of_ne hap]
    apply (h.inPlace ha).mono _ id
    intro ham
    exact (hsub a).mpr ⟨ham, hap⟩
  · intro a ha
    rw [← Option.some.inj ha]
    refine ⟨(h.ready_mem p hp).1, ?_⟩
    rw [State.heap_setReadyQueue, Heap.set_self]
  · intro a ha
    by_cases hap : a = p
    · rw [State.heap_setReadyQueue, hap, Heap.set_self]
      exact h.priority p (h.ready_mem p hp).1
    · rw [State.heap_setReadyQueue, Heap.set_of_ne hap]
      exact h.priority a ha
  · exact h.ids
  · exact h.current_task
  · exact h.next_task

end Placed

end OpenIon.Sched
