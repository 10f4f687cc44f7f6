import OpenIon.Lib.Replies
import OpenIon.Sched.ReadyQueue.Pop
import OpenIon.Sched.ReadyQueue.Push

/-! # The ready queue as eight lists

What the ready queue is for: a list of tasks for each priority. Tasks enter at the end of
the list of their priority, and leave from the front of the highest or the lowest list that
is not empty. The stored queue, with its links, flags, bitmap and counter, replies to every
sequence of operations like the lists.
-/
namespace OpenIon.Sched.ReadyQueue
open Lib

/-- The operations, and what callers do in between: they change the states of tasks. -/
inductive Op where
  | push (p : TaskPtr)
  | popHighest
  | popLowest
  | popLowestRaw
  | pushRaw (p : Option TaskPtr)
  | setState (p : TaskPtr) (state : TaskState)

inductive Reply where
  | pushed (accepted : Bool)
  | popped (p : Option TaskPtr)
  | done
  deriving DecidableEq

structure Stored where
  queue : ReadyQueue
  heap : Heap

def Stored.perform (maxTasks : ℕ) (s : Stored) : Op → Reply × Stored
  | .push p =>
    let (accepted, q, h) := s.queue.push maxTasks s.heap p
    (.pushed accepted, ⟨q, h⟩)
  | .popHighest =>
    let (p, q, h) := s.queue.popHighest s.heap
    (.popped p, ⟨q, h⟩)
  | .popLowest =>
    let (p, q, h) := s.queue.popLowest s.heap
    (.popped p, ⟨q, h⟩)
  | .popLowestRaw =>
    let (p, q, h) := s.queue.popLowestRaw s.heap
    (.popped p, ⟨q, h⟩)
  | .pushRaw p =>
    let (accepted, q, h) := s.queue.pushRaw maxTasks s.heap p
    (.pushed accepted, ⟨q, h⟩)
  | .setState p state => (.done, { s with heap := s.heap.set p { s.heap p with state := state } })

structure Fifo where
  lists : ℕ → List TaskPtr
  state : TaskPtr → TaskState

namespace Fifo

/-- Tasks have a priority, and some of them are linked into another list. -/
structure Tasks where
  priority : TaskPtr → ℕ
  linked : TaskPtr → Bool

def nonEmpty (f : Fifo) : List ℕ := (List.range maxPriorities).filter fun i => f.lists i ≠ []

def pop (f : Fifo) : Option ℕ → Reply × Fifo
  | none => (.popped none, f)
  | some i =>
    (.popped (f.lists i).head?, { f with lists := Function.update f.lists i (f.lists i).tail })

/-- A task is refused if it is in a list, not ready or linked elsewhere, or if there are
`maxTasks` tasks in the lists. -/
def Refuses (maxTasks : ℕ) (t : Tasks) (f : Fifo) (p : TaskPtr) : Prop :=
  p ∈ members f.lists ∨ f.state p ≠ .ready ∨ t.linked p = true ∨
    maxTasks ≤ (members f.lists).length

instance decidableRefuses (maxTasks : ℕ) (t : Tasks) (f : Fifo) (p : TaskPtr) :
    Decidable (f.Refuses maxTasks t p) := inferInstanceAs (Decidable (_ ∨ _ ∨ _ ∨ _))

def push (maxTasks : ℕ) (t : Tasks) (f : Fifo) (p : TaskPtr) : Reply × Fifo :=
  if f.Refuses maxTasks t p then (.pushed false, f)
  else (.pushed true, { f with
    lists := Function.update f.lists (t.priority p) (f.lists (t.priority p) ++ [p]) })

def perform (maxTasks : ℕ) (t : Tasks) (f : Fifo) : Op → Reply × Fifo
  | .push p => f.push maxTasks t p
  | .popHighest => f.pop f.nonEmpty.max?
  | .popLowest => f.pop f.nonEmpty.min?
  | .popLowestRaw => f.pop f.nonEmpty.min?
  | .pushRaw none => (.pushed false, f)
  | .pushRaw (some p) => f.push maxTasks t p
  | .setState p state => (.done, { f with state := Function.update f.state p state })

end Fifo

/-- The stored queue is the lists: the links, the bitmap and the counter are those of the lists,
and exactly the tasks in the lists have the flag. -/
structure Represents (t : Fifo.Tasks) (s : Stored) (f : Fifo) : Prop where
  wf : s.queue.Wf s.heap f.lists
  queued : ∀ p, (s.heap p).queued = true ↔ p ∈ members f.lists
  state : ∀ p, (s.heap p).state = f.state p
  priority : ∀ p, (s.heap p).priority = t.priority p
  priority_lt : ∀ p, t.priority p < maxPriorities
  linked : ∀ p, p ∉ members f.lists → (s.heap p).next.isSome = t.linked p
  unlinked : ∀ p ∈ members f.lists, t.linked p = false

namespace Represents

variable {t : Fifo.Tasks} {s : Stored} {f : Fifo} {p : TaskPtr} {maxTasks : ℕ}

theorem mem_nonEmpty {i : ℕ} : i ∈ f.nonEmpty ↔ i < maxPriorities ∧ f.lists i ≠ [] := by
  simp [Fifo.nonEmpty]

theorem nonEmpty_eq_nil : f.nonEmpty = [] ↔ members f.lists = [] := by
  rw [List.eq_nil_iff_forall_not_mem, List.eq_nil_iff_forall_not_mem]
  constructor
  · intro h p hp
    rcases mem_members.mp hp with ⟨i, hi, hpi⟩
    exact h i (mem_nonEmpty.mpr ⟨hi, List.ne_nil_of_mem hpi⟩)
  · intro h i hi
    rcases mem_nonEmpty.mp hi with ⟨hlt, hne⟩
    rcases List.exists_mem_of_ne_nil _ hne with ⟨p, hp⟩
    exact h p (mem_members.mpr ⟨i, hlt, hp⟩)

/-- The queue accepts the tasks that the lists do not refuse. -/
theorem accepts_iff (h : Represents t s f) :
    Accepts maxTasks s.queue s.heap p ↔ ¬ f.Refuses maxTasks t p := by
  have hlink : p ∉ members f.lists → ((s.heap p).next = none ↔ ¬ t.linked p = true) := by
    intro hp
    rw [← h.linked p hp, Option.not_isSome_iff_eq_none]
  have hqueued : (s.heap p).queued = false ↔ p ∉ members f.lists := by
    rw [← h.queued, Bool.not_eq_true]
  unfold Fifo.Refuses
  rw [not_or, not_or, not_or, not_not, not_le]
  constructor
  · intro ha
    have hp := hqueued.mp ha.unqueued
    exact ⟨hp, h.state p ▸ ha.ready, (hlink hp).mp ha.unlinked, h.wf.count ▸ ha.room⟩
  · rintro ⟨hp, hready, hlinked, hroom⟩
    exact ⟨hqueued.mpr hp, (h.state p).trans hready, (hlink hp).mpr hlinked,
      h.wf.count.trans_lt hroom, h.priority p ▸ h.priority_lt p⟩

theorem not_accepts_iff (h : Represents t s f) :
    ¬ Accepts maxTasks s.queue s.heap p ↔ (s.heap p).queued = true ∨ (s.heap p).state ≠ .ready ∨
      (s.heap p).next ≠ none ∨ maxTasks ≤ s.queue.taskCount := by
  have hprio : (s.heap p).priority < maxPriorities := h.priority p ▸ h.priority_lt p
  constructor
  · intro ha
    by_contra hno
    rw [not_or, not_or, not_or, not_not, not_not, not_le, Bool.not_eq_true] at hno
    exact ha ⟨hno.1, hno.2.1, hno.2.2.1, hno.2.2.2, hprio⟩
  · rintro (hq | hs | hn | hr) ha
    · simp [ha.unqueued] at hq
    · exact hs ha.ready
    · exact hn ha.unlinked
    · exact absurd ha.room (Nat.not_lt.mpr hr)

theorem push_refused (h : Represents t s f) (hp : f.Refuses maxTasks t p) :
    s.queue.push maxTasks s.heap p = (false, s.queue, s.heap) :=
  push_of_not_accepts fun ha => h.accepts_iff.mp ha hp

/-- An operation changes links and flags only. -/
theorem of_frame (h : Represents t s f) {q : ReadyQueue} {h' : Heap} {lists : ℕ → List TaskPtr}
    (hwf : q.Wf h' lists)
    (hkeep : ∀ a, h' a = { s.heap a with next := (h' a).next, queued := (h' a).queued })
    (hqueued : ∀ a, (h' a).queued = true ↔ a ∈ members lists)
    (hlinked : ∀ a, a ∉ members lists → (h' a).next.isSome = t.linked a)
    (hunlinked : ∀ a ∈ members lists, t.linked a = false) :
    Represents t ⟨q, h'⟩ { f with lists := lists } where
  wf := hwf
  queued := hqueued
  state a := (congrArg TaskControlBlock.state (hkeep a)).trans (h.state a)
  priority a := (congrArg TaskControlBlock.priority (hkeep a)).trans (h.priority a)
  priority_lt := h.priority_lt
  linked := hlinked
  unlinked := hunlinked

theorem push_accepted (h : Represents t s f) (hp : ¬ f.Refuses maxTasks t p) {q : ReadyQueue}
    {h' : Heap} (hpush : s.queue.push maxTasks s.heap p = (true, q, h')) :
    Represents t ⟨q, h'⟩
      { f with lists := Function.update f.lists (t.priority p) (f.lists (t.priority p) ++ [p]) } := by
  rcases h.wf.push (h.accepts_iff.mpr hp) hpush with ⟨hwf, hframe⟩
  rw [h.priority p] at hwf
  have hmem := mem_members_append f.lists (h.priority_lt p) p
  have hlinked : t.linked p = false := by
    unfold Fifo.Refuses at hp
    simpa using (not_or.mp (not_or.mp (not_or.mp hp).2).2).1
  refine h.of_frame hwf ?_ ?_ ?_ ?_
  · intro a
    by_cases hap : a = p
    · rw [hap, hframe.self]
    · rw [hframe.other a hap]
  · intro a
    rw [hmem, ← h.queued a]
    by_cases hap : a = p
    · simp [hap, hframe.self]
    · rw [hframe.other a hap]
      simp [hap]
  · intro a ha
    rw [hmem, not_or] at ha
    rw [hframe.outside a ha.2 ha.1]
    exact h.linked a ha.1
  · intro a ha
    rcases (hmem a).mp ha with ha | rfl
    · exact h.unlinked a ha
    · exact hlinked

theorem push (h : Represents t s f) :
    (s.perform maxTasks (.push p)).1 = (f.push maxTasks t p).1 ∧
      Represents t (s.perform maxTasks (.push p)).2 (f.push maxTasks t p).2 := by
  rw [Stored.perform, Fifo.push]
  by_cases hp : f.Refuses maxTasks t p
  · rw [h.push_refused hp, if_pos hp]
    exact ⟨rfl, h⟩
  · have hpush := push_of_accepts (h.accepts_iff.mpr hp)
    have hnext := h.push_accepted hp hpush
    rw [hpush, if_neg hp]
    exact ⟨rfl, hnext⟩

theorem pop (h : Represents t s f) {i : ℕ} {l : List TaskPtr} {q : ReadyQueue}
    (hi : i < maxPriorities) (hl : f.lists i = p :: l)
    (hwf : q.Wf (s.heap.set p { s.heap p with next := none, queued := false })
      (Function.update f.lists i l)) :
    Represents t ⟨q, s.heap.set p { s.heap p with next := none, queued := false }⟩
      { f with lists := Function.update f.lists i l } := by
  have hmem := h.wf.mem_members_pop hi hl
  have hp : p ∈ members f.lists := mem_members.mpr ⟨i, hi, by simp [hl]⟩
  refine h.of_frame hwf ?_ ?_ ?_ ?_
  · intro a
    by_cases hap : a = p
    · simp [hap]
    · rw [Heap.set_of_ne hap]
  · intro a
    rw [hmem, ← h.queued a]
    by_cases hap : a = p
    · simp [hap]
    · simp [Heap.set_of_ne hap, hap]
  · intro a ha
    by_cases hap : a = p
    · rw [hap, Heap.set_self, h.unlinked p hp]
      rfl
    · rw [Heap.set_of_ne hap]
      exact h.linked a fun hin => ha ((hmem a).mpr ⟨hin, hap⟩)
  · intro a ha
    exact h.unlinked a ((hmem a).mp ha).1

theorem popHighest (h : Represents t s f) :
    (s.perform maxTasks .popHighest).1 = (f.pop f.nonEmpty.max?).1 ∧
      Represents t (s.perform maxTasks .popHighest).2 (f.pop f.nonEmpty.max?).2 := by
  rw [Stored.perform]
  by_cases hempty : members f.lists = []
  · rw [popHighest_empty h.wf hempty, nonEmpty_eq_nil.mpr hempty]
    exact ⟨rfl, h⟩
  · rcases h.wf.popHighest hempty with ⟨i, p, l, q, hi, hl, hmax, -, hpop, hwf⟩
    have hhighest : f.nonEmpty.max? = some i := by
      rw [List.max?_eq_some_iff]
      refine ⟨mem_nonEmpty.mpr ⟨hi, by simp [hl]⟩, fun j hj => ?_⟩
      rcases mem_nonEmpty.mp hj with ⟨hlt, hne⟩
      rcases List.exists_mem_of_ne_nil _ hne with ⟨a, ha⟩
      rw [← h.wf.priority j hlt a ha]
      exact hmax a (mem_members.mpr ⟨j, hlt, ha⟩)
    rw [hpop, hhighest, Fifo.pop, hl]
    exact ⟨rfl, h.pop hi hl hwf⟩

theorem popLowest (h : Represents t s f) :
    (s.perform maxTasks .popLowest).1 = (f.pop f.nonEmpty.min?).1 ∧
      Represents t (s.perform maxTasks .popLowest).2 (f.pop f.nonEmpty.min?).2 := by
  rw [Stored.perform]
  by_cases hempty : members f.lists = []
  · rw [popLowest_empty h.wf hempty, nonEmpty_eq_nil.mpr hempty]
    exact ⟨rfl, h⟩
  · rcases h.wf.popLowest hempty with ⟨i, p, l, q, hi, hl, hmin, hpop, hwf⟩
    have hlowest : f.nonEmpty.min? = some i := by
      rw [List.min?_eq_some_iff]
      refine ⟨mem_nonEmpty.mpr ⟨hi, by simp [hl]⟩, fun j hj => ?_⟩
      by_contra hlt
      exact (mem_nonEmpty.mp hj).2 (hmin j (by omega))
    rw [hpop, hlowest, Fifo.pop, hl]
    exact ⟨rfl, h.pop hi hl hwf⟩

theorem setState (h : Represents t s f) (p : TaskPtr) (state : TaskState) :
    Represents t ⟨s.queue, s.heap.set p { s.heap p with state := state }⟩
      { f with state := Function.update f.state p state } := by
  have hsame : ∀ a, s.heap.set p { s.heap p with state := state } a =
      { s.heap a with state := Function.update f.state p state a } := by
    intro a
    by_cases hap : a = p
    · rw [hap, Heap.set_self, Function.update_self]
    · rw [Heap.set_of_ne hap, Function.update_of_ne hap, ← h.state a]
  generalize s.heap.set p { s.heap p with state := state } = h' at hsame ⊢
  have hnext : ∀ a, (h' a).next = (s.heap a).next := fun a => by rw [hsame]
  have hprio : ∀ a, (h' a).priority = (s.heap a).priority := fun a => by rw [hsame]
  have hqueued : ∀ a, (h' a).queued = (s.heap a).queued := fun a => by rw [hsame]
  constructor
  · exact h.wf.congr (fun a _ => hnext a) (fun a _ => hprio a) fun a _ => hqueued a
  · intro a
    rw [hqueued]
    exact h.queued a
  · exact fun a => congrArg TaskControlBlock.state (hsame a)
  · intro a
    rw [hprio]
    exact h.priority a
  · exact h.priority_lt
  · intro a ha
    rw [hnext]
    exact h.linked a ha
  · exact h.unlinked

theorem perform (h : Represents t s f) (maxTasks : ℕ) (op : Op) :
    (s.perform maxTasks op).1 = (f.perform maxTasks t op).1 ∧
      Represents t (s.perform maxTasks op).2 (f.perform maxTasks t op).2 := by
  cases op with
  | push p => exact h.push
  | popHighest => exact h.popHighest
  | popLowest => exact h.popLowest
  | popLowestRaw => exact (h.popLowest : (s.perform maxTasks .popLowest).1 = _ ∧ _)
  | pushRaw p =>
    cases p with
    | none => exact ⟨rfl, h⟩
    | some p => exact h.push
  | setState p state => exact ⟨rfl, h.setState p state⟩

end Represents

def Fifo.Tasks.ofHeap (h : Heap) : Fifo.Tasks where
  priority p := (h p).priority
  linked p := (h p).next.isSome

def Fifo.new (h : Heap) : Fifo where
  lists _ := []
  state p := (h p).state

theorem Represents.new {h : Heap} (hqueued : ∀ p, (h p).queued = false)
    (hprio : ∀ p, (h p).priority < maxPriorities) :
    Represents (.ofHeap h) ⟨ReadyQueue.new, h⟩ (.new h) where
  wf := new_wf h
  queued p := by simp [hqueued, Fifo.new, members]
  state _ := rfl
  priority _ := rfl
  priority_lt := hprio
  linked _ _ := rfl
  unlinked p hp := by simp [Fifo.new, members] at hp

/-- From an empty queue, all operations reply as the lists do. The links, the bitmap, the counter
and the flags are those of the lists, which have no task twice. A push fails, and then changes
nothing, exactly for a task that is queued, not ready or linked, or when the queue is full. -/
theorem refines_fifo (maxTasks : ℕ) (h : Heap) (hqueued : ∀ p, (h p).queued = false)
    (hprio : ∀ p, (h p).priority < maxPriorities) (ops : List Op) :
    ∃ s f, s = (replies (Stored.perform maxTasks) ⟨ReadyQueue.new, h⟩ ops).2 ∧
      f = (replies (Fifo.perform maxTasks (.ofHeap h)) (.new h) ops).2 ∧
      (replies (Stored.perform maxTasks) ⟨ReadyQueue.new, h⟩ ops).1 =
        (replies (Fifo.perform maxTasks (.ofHeap h)) (.new h) ops).1 ∧
      Represents (.ofHeap h) s f ∧ (members f.lists).Nodup ∧
      (∀ p, (s.queue.push maxTasks s.heap p).1 = false ↔ (s.heap p).queued = true ∨
        (s.heap p).state ≠ .ready ∨ (s.heap p).next ≠ none ∨ maxTasks ≤ s.queue.taskCount) ∧
      ∀ p, (s.queue.push maxTasks s.heap p).1 = false →
        s.queue.push maxTasks s.heap p = (false, s.queue, s.heap) := by
  rcases replies_simulate (fun s f op hs => hs.perform maxTasks op)
    (Represents.new hqueued hprio) ops with ⟨hreplies, hlast⟩
  refine ⟨_, _, rfl, rfl, hreplies, hlast, hlast.wf.nodup, ?_, ?_⟩
  · intro p
    rw [push_fst_eq_false]
    exact hlast.not_accepts_iff
  · intro p hp
    exact push_of_not_accepts (push_fst_eq_false.mp hp)

def sampleHeap : Heap := fun p => TaskControlBlock.new 0 0 0 0 (p % 8) "TASK"

theorem refines_fifo_sample :
    (replies (Stored.perform 3) ⟨ReadyQueue.new, sampleHeap⟩
        [.push 1, .push 9, .push 6, .push 2, .popHighest, .popLowest, .push 1, .popLowestRaw]).1 =
      [.pushed true, .pushed true, .pushed true, .pushed false, .popped (some 6), .popped (some 1),
        .pushed true, .popped (some 9)] := by
  obtain ⟨s, f, -, -, hreplies, -⟩ := refines_fifo 3 sampleHeap (fun _ => rfl)
    (fun p => Nat.mod_lt p (by decide))
    [.push 1, .push 9, .push 6, .push 2, .popHighest, .popLowest, .push 1, .popLowestRaw]
  rw [hreplies]
  decide

end OpenIon.Sched.ReadyQueue
