import OpenIon.Sched.ReadyQueue.Wf

/-! # Pushing a ready task

`push` either refuses a task and changes nothing, or appends it to the list of
its priority. Besides the task itself it only touches the link of the old tail.
-/
namespace OpenIon.Sched
open Lib

variable {q : Queue} {h : Heap} {p a : TaskPtr} {l : List TaskPtr}

theorem Queue.pushBack_self (hp : q.tail ≠ some p) :
    (q.pushBack h p).2 p = { h p with next := none } := by
  unfold Queue.pushBack
  split
  · simp
  · rename_i tail htail
    have hne : p ≠ tail := by
      intro he
      exact hp (he ▸ htail)
    simp [Heap.set_of_ne hne]

theorem Queue.pushBack_tail (ha : q.tail = some a) (hne : a ≠ p) :
    (q.pushBack h p).2 a = { h a with next := some p } := by
  simp [Queue.pushBack, ha, Heap.set_of_ne hne]

theorem Queue.pushBack_other (hne : a ≠ p) (ha : q.tail ≠ some a) :
    (q.pushBack h p).2 a = h a := by
  unfold Queue.pushBack
  split
  · simp [Heap.set_of_ne hne]
  · rename_i tail htail
    have hta : a ≠ tail := by
      intro he
      exact ha (he ▸ htail)
    simp [Heap.set_of_ne hne, Heap.set_of_ne hta]

theorem Queue.pushBack_frame (hne : a ≠ p) :
    (q.pushBack h p).2 a = { h a with next := ((q.pushBack h p).2 a).next } := by
  by_cases ha : q.tail = some a
  · rw [Queue.pushBack_tail ha hne]
  · rw [Queue.pushBack_other hne ha]

theorem Queue.pushBack_chain (hc : Chain h.next q.head l) (ht : q.tail = l.getLast?) (hp : p ∉ l) :
    Chain (q.pushBack h p).2.next (q.pushBack h p).1.head (l ++ [p]) := by
  have hself : (q.pushBack h p).2.next p = none := by
    have htp : q.tail ≠ some p := by
      intro he
      exact hp (List.mem_of_getLast? (ht ▸ he))
    simp [Heap.next, Queue.pushBack_self htp]
  rcases List.eq_nil_or_concat' l with rfl | ⟨m, b, rfl⟩
  · have hnil : q.tail = none := by simpa using ht
    have hhead : (q.pushBack h p).1.head = some p := by simp [Queue.pushBack, hnil]
    exact ⟨hhead, hself⟩
  · have hb : q.tail = some b := by simpa using ht
    have hhead : (q.pushBack h p).1.head = q.head := by simp [Queue.pushBack, hb]
    have hbp : b ≠ p := by
      rintro rfl
      exact hp (by simp)
    have hnodup := hc.nodup
    rw [hhead, List.append_assoc]
    apply hc.push_back _ _ hself
    · intro c hcm
      have hcp : c ≠ p := by
        rintro rfl
        exact hp (by simp [hcm])
      have hcb : q.tail ≠ some c := by
        rw [hb]
        intro he
        rw [Option.some.inj he] at hnodup
        exact (List.nodup_append.mp hnodup).2.2 c hcm c (by simp) rfl
      simp [Heap.next, Queue.pushBack_other hcp hcb]
    · simp [Heap.next, Queue.pushBack_tail hb hbp]

theorem Queue.pushBack_tail_eq : (q.pushBack h p).1.tail = some p := by
  unfold Queue.pushBack
  split <;> rfl

namespace ReadyQueue

variable {q : ReadyQueue} {h : Heap} {rq : ℕ → List TaskPtr} {p : TaskPtr} {maxTasks : ℕ}

/-- The conditions under which `push` accepts a task. -/
structure Accepts (maxTasks : ℕ) (q : ReadyQueue) (h : Heap) (p : TaskPtr) : Prop where
  unqueued : (h p).queued = false
  ready : (h p).state = .ready
  unlinked : (h p).next = none
  room : q.taskCount < maxTasks
  priority : (h p).priority < maxPriorities

theorem push_of_accepts (ha : Accepts maxTasks q h p) :
    q.push maxTasks h p =
      (true,
        { q with
          queues := Function.update q.queues (h p).priority
            ((q.queues (h p).priority).pushBack h p).1
          taskCount := q.taskCount + 1
          nonEmpty := q.nonEmpty ||| (1#8 <<< (h p).priority) },
        ((q.queues (h p).priority).pushBack h p).2.set p
          { ((q.queues (h p).priority).pushBack h p).2 p with queued := true }) := by
  have hroom := Nat.not_le.mpr ha.room
  have hprio := Nat.not_le.mpr ha.priority
  simp [push, ha.unqueued, ha.ready, ha.unlinked, hroom, hprio]

theorem push_of_not_accepts (ha : ¬ Accepts maxTasks q h p) :
    q.push maxTasks h p = (false, q, h) := by
  by_contra hpush
  apply ha
  constructor
  · by_contra hq
    exact hpush (by simp [push, hq])
  · by_contra hs
    exact hpush (by simp [push, hs])
  · by_contra hn
    exact hpush (by simp [push, Option.isSome_iff_ne_none.mpr hn])
  · by_contra hr
    exact hpush (by simp [push, Nat.not_lt.mp hr])
  · by_contra hp
    exact hpush (by simp [push, Nat.not_lt.mp hp])

theorem push_fst_eq_false : (q.push maxTasks h p).1 = false ↔ ¬ Accepts maxTasks q h p := by
  by_cases ha : Accepts maxTasks q h p
  · simp [push_of_accepts ha, ha]
  · simp [push_of_not_accepts ha, ha]

end ReadyQueue

theorem mem_append_at {rq : ℕ → List TaskPtr} {i j : ℕ} {p a : TaskPtr} :
    a ∈ Function.update rq i (rq i ++ [p]) j ↔ a ∈ rq j ∨ a = p ∧ j = i := by
  by_cases hji : j = i
  · subst hji
    simp
  · simp [hji]

theorem mem_members_append (rq : ℕ → List TaskPtr) {i : ℕ} (hi : i < maxPriorities)
    (p a : TaskPtr) :
    a ∈ members (Function.update rq i (rq i ++ [p])) ↔ a ∈ members rq ∨ a = p := by
  simp only [mem_members, mem_append_at]
  constructor
  · rintro ⟨j, hj, ha | ⟨rfl, -⟩⟩
    · exact .inl ⟨j, hj, ha⟩
    · exact .inr rfl
  · rintro (⟨j, hj, ha⟩ | rfl)
    · exact ⟨j, hj, .inl ha⟩
    · exact ⟨i, hi, .inr ⟨rfl, rfl⟩⟩

namespace ReadyQueue

variable {q q' : ReadyQueue} {h h' : Heap} {rq : ℕ → List TaskPtr} {p : TaskPtr} {maxTasks : ℕ}

/-- The pushed task gets a null link and its flag; of every other task only the link may
change, and of a task that is not queued nothing does. -/
structure PushFrame (h h' : Heap) (rq : ℕ → List TaskPtr) (p : TaskPtr) : Prop where
  self : h' p = { h p with next := none, queued := true }
  other : ∀ a, a ≠ p → h' a = { h a with next := (h' a).next }
  outside : ∀ a, a ≠ p → a ∉ members rq → h' a = h a

theorem Wf.not_mem_of_accepts (w : q.Wf h rq) (ha : Accepts maxTasks q h p) :
    ∀ i < maxPriorities, p ∉ rq i := by
  intro i hi hp
  simpa [ha.unqueued] using w.queued i hi p hp

/-- A push changes the task and the link of the last task of its list, and nothing else. -/
theorem Wf.pushFrame (w : q.Wf h rq) (ha : Accepts maxTasks q h p) :
    PushFrame h (((q.queues (h p).priority).pushBack h p).2.set p
      { ((q.queues (h p).priority).pushBack h p).2 p with queued := true }) rq p := by
  have hi := ha.priority
  have htail : (q.queues (h p).priority).tail ≠ some p := by
    rw [w.tail _ hi]
    intro he
    exact w.not_mem_of_accepts ha _ hi (List.mem_of_getLast? he)
  constructor
  · simp [Queue.pushBack_self htail]
  · intro a hap
    simp only [Heap.set_of_ne hap]
    exact Queue.pushBack_frame hap
  · intro a hap ham
    rw [Heap.set_of_ne hap]
    apply Queue.pushBack_other hap
    rw [w.tail _ hi]
    intro he
    exact ham (mem_members.mpr ⟨_, hi, List.mem_of_getLast? he⟩)

/-- An accepted push appends the task to the list of its priority. -/
theorem Wf.push (w : q.Wf h rq) (ha : Accepts maxTasks q h p)
    (hpush : q.push maxTasks h p = (true, q', h')) :
    q'.Wf h' (Function.update rq (h p).priority (rq (h p).priority ++ [p])) ∧
      PushFrame h h' rq p := by
  rw [push_of_accepts ha] at hpush
  simp only [Prod.mk.injEq, true_and] at hpush
  rcases hpush with ⟨rfl, rfl⟩
  have hi := ha.priority
  have hfresh := w.not_mem_of_accepts ha
  have hne : ∀ b, ∀ i < maxPriorities, b ∈ rq i → b ≠ p := by
    rintro b i hilt hb rfl
    exact hfresh i hilt hb
  have hframe := w.pushFrame ha
  refine ⟨?_, hframe⟩
  generalize hh : ((q.queues (h p).priority).pushBack h p).2.set p
    { ((q.queues (h p).priority).pushBack h p).2 p with queued := true } = h' at hframe ⊢
  have hnext : ∀ b, h'.next b = ((q.queues (h p).priority).pushBack h p).2.next b := by
    intro b
    by_cases hb : b = p
    · simp [← hh, Heap.next, hb]
    · simp [← hh, Heap.next, Heap.set_of_ne hb]
  constructor
  · intro i hilt
    by_cases hip : i = (h p).priority
    · subst hip
      simp only [Function.update_self]
      exact (Queue.pushBack_chain (w.chain _ hi) (w.tail _ hi) (hfresh _ hi)).congr
        fun b _ => hnext b
    · simp only [Function.update_of_ne hip]
      apply (w.chain i hilt).congr
      intro b hb
      have hbt : (q.queues (h p).priority).tail ≠ some b := by
        rw [w.tail _ hi]
        intro he
        apply hip
        rw [← w.priority i hilt b hb, w.priority _ hi b (List.mem_of_getLast? he)]
      rw [hnext b]
      simp [Heap.next, Queue.pushBack_other (hne b i hilt hb) hbt]
  · intro i hilt
    by_cases hip : i = (h p).priority
    · subst hip
      simp [Queue.pushBack_tail_eq]
    · simpa only [Function.update_of_ne hip] using w.tail i hilt
  · intro i hilt
    rw [getLsbD_setBit (k := 8) _ _ _ hilt, w.bits i hilt]
    by_cases hip : i = (h p).priority
    · subst hip
      simp
    · simp [hip]
  · have hlen := members_update_length rq (rq (h p).priority ++ [p]) hi
    have hcount := w.count
    simp only [List.length_append, List.length_singleton] at hlen
    simp only
    omega
  · intro i hilt b hb
    rcases mem_append_at.mp hb with hb | ⟨rfl, hib⟩
    · rw [hframe.other b (hne b i hilt hb)]
      exact w.priority i hilt b hb
    · rw [hframe.self, hib]
  · intro i hilt b hb
    rcases mem_append_at.mp hb with hb | ⟨rfl, -⟩
    · rw [hframe.other b (hne b i hilt hb)]
      exact w.queued i hilt b hb
    · rw [hframe.self]

end ReadyQueue

end OpenIon.Sched
