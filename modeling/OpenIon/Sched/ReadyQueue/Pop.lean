import OpenIon.Sched.ReadyQueue.Wf

/-! # Popping a ready task

Every pop takes the oldest task of one list and clears its link and flag; the
highest pop chooses the highest list that is not empty.
-/
namespace OpenIon.Sched
open Lib

variable {q : Queue} {h : Heap} {p : TaskPtr} {l : List TaskPtr}

theorem Queue.popFront_cons (hc : Chain h.next q.head (p :: l))
    (ht : q.tail = (p :: l).getLast?) :
    ∃ queue, q.popFront h = (some p, queue, h.set p { h p with next := none }) ∧
      Chain h.next queue.head l ∧ queue.tail = l.getLast? := by
  have hhead : q.head = some p := hc.1
  have hrest : Chain h.next (h p).next l := hc.2
  refine ⟨⟨(h p).next, if (h p).next.isNone then none else q.tail⟩, ?_, hrest, ?_⟩
  · simp [Queue.popFront, hhead]
  · cases l with
    | nil => simp [show (h p).next = none from hrest]
    | cons b l => simp [show (h p).next = some b from hrest.1, ht]

namespace ReadyQueue

variable {q : ReadyQueue} {h : Heap} {rq : ℕ → List TaskPtr} {p : TaskPtr}

theorem Wf.mem_pop (w : q.Wf h rq) {i j : ℕ} {l : List TaskPtr} {a : TaskPtr}
    (hi : i < maxPriorities) (hl : rq i = p :: l) (hj : j < maxPriorities) :
    a ∈ Function.update rq i l j ↔ a ∈ rq j ∧ a ≠ p := by
  by_cases hji : j = i
  · subst hji
    have hnodup := (w.chain j hj).nodup
    rw [hl, List.nodup_cons] at hnodup
    rw [Function.update_self, hl]
    constructor
    · intro ha
      refine ⟨List.mem_cons_of_mem _ ha, ?_⟩
      rintro rfl
      exact hnodup.1 ha
    · rintro ⟨ha, hap⟩
      exact (List.mem_cons.mp ha).resolve_left hap
  · rw [Function.update_of_ne hji]
    constructor
    · intro ha
      refine ⟨ha, ?_⟩
      rintro rfl
      apply hji
      rw [← w.priority j hj a ha, w.priority i hi a (hl ▸ List.mem_cons_self)]
    · exact And.left

/-- Taking the oldest task of a list removes it from the list and clears its link and flag. -/
theorem Wf.popAt (w : q.Wf h rq) {i : ℕ} {l : List TaskPtr} (hi : i < maxPriorities)
    (hl : rq i = p :: l) :
    ∃ q', q.popAt h i = (some p, q', h.set p { h p with next := none, queued := false }) ∧
      q'.Wf (h.set p { h p with next := none, queued := false }) (Function.update rq i l) := by
  have hchain := w.chain i hi
  have htail := w.tail i hi
  rw [hl] at hchain htail
  rcases Queue.popFront_cons hchain htail with ⟨queue, hpop, hrest, hlast⟩
  have hnil : queue.head.isNone = true ↔ l = [] := by
    rw [Option.isNone_iff_eq_none, hrest.eq_nil_iff]
  have hpopAt : q.popAt h i = (some p,
      { q with
        queues := Function.update q.queues i queue
        taskCount := q.taskCount - 1
        nonEmpty := if queue.head.isNone then q.nonEmpty &&& ~~~(1#8 <<< i) else q.nonEmpty },
      h.set p { h p with next := none, queued := false }) := by
    simp only [ReadyQueue.popAt, hpop, Heap.set_self, Heap.set_set]
  refine ⟨_, hpopAt, ?_⟩
  have hsub : ∀ j < maxPriorities, ∀ b ∈ Function.update rq i l j, b ∈ rq j ∧ b ≠ p := by
    intro j hj b hb
    exact (w.mem_pop hi hl hj).mp hb
  constructor
  · intro j hj
    have hsame : ∀ b ∈ Function.update rq i l j,
        (h.set p { h p with next := none, queued := false }).next b = h.next b := by
      intro b hb
      simp only [Heap.next, Heap.set_of_ne (hsub j hj b hb).2]
    apply Chain.congr _ hsame
    by_cases hji : j = i
    · subst hji
      simpa only [Function.update_self] using hrest
    · simpa only [Function.update_of_ne hji] using w.chain j hj
  · intro j hj
    by_cases hji : j = i
    · subst hji
      simpa only [Function.update_self] using hlast
    · simpa only [Function.update_of_ne hji] using w.tail j hj
  · intro j hj
    by_cases hji : j = i
    · subst hji
      simp only [Function.update_self]
      by_cases hempty : l = []
      · rw [if_pos (hnil.mpr hempty), getLsbD_clearBit (k := 8) _ _ _ hj]
        simp [hempty]
      · rw [if_neg (mt hnil.mp hempty), w.bits j hj, hl]
        simp [hempty]
    · simp only [Function.update_of_ne hji]
      by_cases hempty : l = []
      · rw [if_pos (hnil.mpr hempty), getLsbD_clearBit (k := 8) _ _ _ hj, w.bits j hj]
        simp [hji]
      · rw [if_neg (mt hnil.mp hempty), w.bits j hj]
  · have hlen := members_update_length rq l hi
    have hcount := w.count
    simp only [hl, List.length_cons] at hlen
    simp only
    omega
  · intro j hj b hb
    rw [Heap.set_of_ne (hsub j hj b hb).2]
    exact w.priority j hj b (hsub j hj b hb).1
  · intro j hj b hb
    rw [Heap.set_of_ne (hsub j hj b hb).2]
    exact w.queued j hj b (hsub j hj b hb).1

theorem Wf.mem_members_pop (w : q.Wf h rq) {i : ℕ} {l : List TaskPtr} (hi : i < maxPriorities)
    (hl : rq i = p :: l) (a : TaskPtr) :
    a ∈ members (Function.update rq i l) ↔ a ∈ members rq ∧ a ≠ p := by
  simp only [mem_members]
  constructor
  · rintro ⟨j, hj, ha⟩
    have hmem := (w.mem_pop hi hl hj).mp ha
    exact ⟨⟨j, hj, hmem.1⟩, hmem.2⟩
  · rintro ⟨⟨j, hj, ha⟩, hap⟩
    exact ⟨j, hj, (w.mem_pop hi hl hj).mpr ⟨ha, hap⟩⟩

theorem popHighest_empty (w : q.Wf h rq) (hempty : members rq = []) :
    q.popHighest h = (none, q, h) := by
  simp [ReadyQueue.popHighest, w.nonEmpty_eq_zero_iff.mpr hempty]

theorem Wf.popHighest (w : q.Wf h rq) (hne : members rq ≠ []) :
    ∃ i p l q', i < maxPriorities ∧ rq i = p :: l ∧ (∀ a ∈ members rq, (h a).priority ≤ i) ∧
      q.peekHighestPriority = i ∧
      q.popHighest h = (some p, q', h.set p { h p with next := none, queued := false }) ∧
      q'.Wf (h.set p { h p with next := none, queued := false }) (Function.update rq i l) := by
  have hz : q.nonEmpty ≠ 0 := mt w.nonEmpty_eq_zero_iff.mp hne
  have hs := highestPriority_spec q.nonEmpty hz
  rcases List.exists_cons_of_ne_nil ((w.bits _ hs.1).mp hs.2.1) with ⟨p, l, hl⟩
  rcases w.popAt hs.1 hl with ⟨q', hpop, hw⟩
  refine ⟨_, p, l, { q' with currentPriority := highestPriority q.nonEmpty }, hs.1, hl, ?_,
    by rw [peekHighestPriority, if_neg hz], ?_, ?_⟩
  · intro a ha
    rcases mem_members.mp ha with ⟨j, hj, haj⟩
    rw [w.priority j hj a haj]
    by_contra hlt
    have hbit := (w.bits j hj).mpr (List.ne_nil_of_mem haj)
    simp [hs.2.2 j hj (by omega)] at hbit
  · simp only [ReadyQueue.popHighest, hz, if_false, hpop]
  · exact ⟨hw.chain, hw.tail, hw.bits, hw.count, hw.priority, hw.queued⟩

theorem popLowest_empty (w : q.Wf h rq) (hempty : members rq = []) :
    q.popLowest h = (none, q, h) := by
  simp [ReadyQueue.popLowest, w.nonEmpty_eq_zero_iff.mpr hempty]

theorem Wf.popLowest (w : q.Wf h rq) (hne : members rq ≠ []) :
    ∃ i p l q', i < maxPriorities ∧ rq i = p :: l ∧ (∀ j < i, rq j = []) ∧
      q.popLowest h = (some p, q', h.set p { h p with next := none, queued := false }) ∧
      q'.Wf (h.set p { h p with next := none, queued := false }) (Function.update rq i l) := by
  have hz : q.nonEmpty ≠ 0 := mt w.nonEmpty_eq_zero_iff.mp hne
  have hs := lowestPriority_spec q.nonEmpty hz
  rcases List.exists_cons_of_ne_nil ((w.bits _ hs.1).mp hs.2.1) with ⟨p, l, hl⟩
  rcases w.popAt hs.1 hl with ⟨q', hpop, hw⟩
  refine ⟨_, p, l, q', hs.1, hl, ?_, ?_, hw⟩
  · intro j hj
    by_contra hnil
    have hbit := (w.bits j (hj.trans hs.1)).mpr hnil
    simp [hs.2.2 j hj] at hbit
  · rw [ReadyQueue.popLowest, if_neg hz, hpop]

end ReadyQueue

end OpenIon.Sched
