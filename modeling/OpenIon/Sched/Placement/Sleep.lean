import OpenIon.Sched.Placement.Basic

/-! # Moves to and from the sleep list -/
namespace OpenIon.Sched
open Lib Mm

/-- The states differ at most in the links of sleeping tasks and in the head of their list. -/
structure Relinked (s s' : State) : Prop where
  pool : s'.pool = { s.pool with data := s'.heap }
  cpuScheds : s'.cpuScheds = s.cpuScheds
  taskIdCounter : s'.taskIdCounter = s.taskIdCounter
  currentTcb : s'.currentTcb = s.currentTcb
  nextTcb : s'.nextTcb = s.nextTcb
  ticks : s'.ticks = s.ticks
  link : ∀ a, s'.heap a = { s.heap a with next := (s'.heap a).next }
  awake : ∀ a, (s.heap a).state ≠ .sleeping → s'.heap a = s.heap a

theorem unlinkSleeper_relinked {s : State} {prev next : Option TaskPtr}
    (hprev : ∀ b, prev = some b → (s.heap b).state = .sleeping) :
    Relinked s (unlinkSleeper s prev next) := by
  cases prev with
  | none => exact ⟨rfl, rfl, rfl, rfl, rfl, rfl, fun _ => rfl, fun _ _ => rfl⟩
  | some b =>
    have hframe : ∀ a, a ≠ b → (unlinkSleeper s (some b) next).heap a = s.heap a := by
      intro a ha
      simp [unlinkSleeper, Heap.set_of_ne ha]
    refine ⟨rfl, rfl, rfl, rfl, rfl, rfl, ?_, ?_⟩
    · intro a
      by_cases hab : a = b
      · simp [unlinkSleeper, hab]
      · rw [hframe a hab]
    · intro a ha
      apply hframe
      rintro rfl
      exact ha (hprev a rfl)

theorem unlinkSleeper_chain {s : State} {keep rest : List TaskPtr} {p : TaskPtr}
    (hc : Chain s.heap.next s.sleepQueue (keep ++ p :: rest)) :
    Chain (unlinkSleeper s keep.getLast? (s.heap p).next).heap.next
      (unlinkSleeper s keep.getLast? (s.heap p).next).sleepQueue (keep ++ rest) := by
  have hnodup := hc.nodup
  rw [List.nodup_middle, List.nodup_cons] at hnodup
  rcases List.eq_nil_or_concat' keep with rfl | ⟨m, b, rfl⟩
  · exact hc.2
  · have hnd := hnodup.2
    rw [List.append_assoc, List.singleton_append, List.nodup_middle, List.nodup_cons] at hnd
    have hother : ∀ c ∈ m ++ rest,
        (unlinkSleeper s (m ++ [b]).getLast? (s.heap p).next).heap c = s.heap c := by
      intro c hmem
      have hcb : c ≠ b := by
        rintro rfl
        exact hnd.1 hmem
      simp [unlinkSleeper, Heap.set_of_ne hcb]
    have hsq : (unlinkSleeper s (m ++ [b]).getLast? (s.heap p).next).sleepQueue =
        s.sleepQueue := by
      simp [unlinkSleeper, State.setTask, State.setHeap]
    rw [List.append_assoc, List.singleton_append] at hc ⊢
    rw [hsq]
    apply hc.unlink_after
    · intro c hc
      exact congrArg TaskControlBlock.next (hother c (List.mem_append_left _ hc))
    · intro c hc
      exact congrArg TaskControlBlock.next (hother c (List.mem_append_right _ hc))
    · simp [Heap.next, unlinkSleeper]

namespace Placed

variable {cfg : Config} {s s' : State} {run : Option TaskPtr} {rq : ℕ → List TaskPtr}
  {sl fl : List TaskPtr} {p : TaskPtr}

/-- Removing one sleeper from the list, by changing only links of sleepers, takes it out. -/
theorem relink {keep rest : List TaskPtr} (h : Placed cfg s run rq (keep ++ p :: rest) fl none)
    (hr : Relinked s s') (hchain : Chain s'.heap.next s'.sleepQueue (keep ++ rest)) :
    Placed cfg s' run rq (keep ++ rest) fl (some p) := by
  have hp := h.sleep_mem p (by simp)
  have hnodup := h.sleep.nodup
  rw [List.nodup_middle, List.nodup_cons] at hnodup
  have hplace := h.inPlace hp.1
  rw [Place, hp.2.1] at hplace
  have hmem : ∀ a, a ∈ keep ++ rest ↔ a ∈ keep ++ p :: rest ∧ a ≠ p := by
    intro a
    by_cases hap : a = p
    · simp [hap, hnodup.1]
    · simp [hap]
  have htask : ∀ a, s'.IsTask a ↔ s.IsTask a := by
    intro a
    rw [State.IsTask, State.IsTask, hr.pool]
  have hready : ∀ a ∈ members rq, s'.heap a = s.heap a := by
    intro a ha
    apply hr.awake
    simp [(h.ready_mem a ha).2.1]
  constructor
  · rw [hr.pool]
    exact h.pool.setData _
  · rw [hr.cpuScheds]
    apply h.ready.congr
    · intro a ha
      rw [hready a ha]
    · intro a ha
      rw [hready a ha]
    · intro a ha
      rw [hready a ha]
  · exact hchain
  · intro a ha
    have hrm := h.ready_mem a ha
    rw [htask, hready a ha]
    refine ⟨hrm.1, hrm.2.1, ?_⟩
    rintro ⟨⟩
    simp [hp.2.1] at hrm
  · intro a ha
    have hsl := h.sleep_mem a ((hmem a).mp ha).1
    rw [htask, hr.link a]
    exact ⟨hsl.1, hsl.2.1, fun he => ((hmem a).mp ha).2 (Option.some.inj he).symm⟩
  · intro a ha hout
    have hold := h.inPlace ((htask a).mp ha)
    by_cases hs : (s.heap a).state = .sleeping
    · rw [Place, hs] at hold
      rw [hr.link a, Place, hs]
      refine ⟨(hmem a).mpr ⟨hold.1, ?_⟩, hold.2⟩
      rintro rfl
      exact hout rfl
    · rw [hr.awake a hs]
      apply hold.mono id
      intro ha
      exact absurd (h.sleep_mem a ha).2.1 hs
  · intro a ha
    rw [← Option.some.inj ha, htask, hr.link p]
    exact ⟨hp.1, hplace.2⟩
  · intro a ha
    rw [hr.link a]
    exact h.priority a ((htask a).mp ha)
  · rw [hr.taskIdCounter]
    exact h.ids
  · intro a ha
    exact (htask a).mpr (h.current_task a (hr.currentTcb ▸ ha))
  · intro a ha
    exact (htask a).mpr (h.next_task a (hr.nextTcb ▸ ha))

theorem takeSleeper {keep rest : List TaskPtr}
    (h : Placed cfg s run rq (keep ++ p :: rest) fl none) :
    Placed cfg (unlinkSleeper s keep.getLast? (s.heap p).next) run rq (keep ++ rest) fl
      (some p) := by
  have hrel : Relinked s (unlinkSleeper s keep.getLast? (s.heap p).next) := by
    apply unlinkSleeper_relinked
    intro b hb
    exact (h.sleep_mem b (List.mem_append_left _ (List.mem_of_getLast? hb))).2.1
  exact h.relink hrel (unlinkSleeper_chain h.sleep)

theorem putSleeper (h : Placed cfg s run rq sl fl (some p)) (hs : (s.heap p).state = .sleeping)
    (hn : (s.heap p).next = s.sleepQueue) :
    Placed cfg { s with sleepQueue := some p } run rq (p :: sl) fl none := by
  constructor
  · exact h.pool
  · exact h.ready
  · refine ⟨rfl, ?_⟩
    change Chain s.heap.next (s.heap p).next sl
    rw [hn]
    exact h.sleep
  · intro a ha
    exact ⟨(h.ready_mem a ha).1, (h.ready_mem a ha).2.1, (by simp)⟩
  · intro a ha
    rcases List.mem_cons.mp ha with rfl | ha
    · exact ⟨(h.taken a rfl).1, hs, (by simp)⟩
    · exact ⟨(h.sleep_mem a ha).1, (h.sleep_mem a ha).2.1, (by simp)⟩
  · intro a ha _
    by_cases hap : a = p
    · subst hap
      change Place (s.heap a) run rq (a :: sl) a
      rw [Place, hs]
      exact ⟨List.mem_cons_self, (h.taken a rfl).2⟩
    · have hout : (some p : Option TaskPtr) ≠ some a := fun he => hap (Option.some.inj he).symm
      exact (h.place a ha hout).mono id (List.mem_cons_of_mem _)
  · simp
  · exact h.priority
  · exact h.ids
  · exact h.current_task
  · exact h.next_task

end Placed

end OpenIon.Sched
