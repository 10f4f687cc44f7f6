import OpenIon.Sched.Scheduler
import OpenIon.Lib.Loop

/-! # Wait queues

The storage of `sched/wait.rs`: an array of task pointers whose first `len` cells
are in use. The operations are the loops over that array; `Holds` relates it to
the list of waiting tasks in order of arrival.
-/
namespace OpenIon.Sched
open Lib

/-- The array `tasks` of capacity `N`, as the contents of its cells, and the counters. -/
structure WaitQueueInner (N : ℕ) where
  tasks : ℕ → Option TaskPtr
  len : ℕ
  wakes : UInt64
  failedWakes : UInt64

namespace WaitQueueInner

variable {N : ℕ}

def new (N : ℕ) : WaitQueueInner N := ⟨fun _ => none, 0, 0, 0⟩

def contains (q : WaitQueueInner N) (task : Option TaskPtr) : Bool :=
  (List.range q.len).any fun i => q.tasks i = task

def push (q : WaitQueueInner N) (task : Option TaskPtr) : Bool × WaitQueueInner N :=
  if task.isNone || q.contains task || decide (N ≤ q.len) then (false, q)
  else (true, { q with tasks := Function.update q.tasks q.len task, len := q.len + 1 })

def popFront (q : WaitQueueInner N) : Option (Option TaskPtr) × WaitQueueInner N :=
  if q.len = 0 then (none, q)
  else
    let last := q.len - 1
    let shifted := forRange last (fun i tasks => Function.update tasks i (tasks (i + 1))) q.tasks
    (some (q.tasks 0), { q with tasks := Function.update shifted last none, len := last })

/-- One turn of the loop of `remove`, with the array and the write index. -/
def compact (task : Option TaskPtr) (read : ℕ) :
    (ℕ → Option TaskPtr) × ℕ → (ℕ → Option TaskPtr) × ℕ
  | (tasks, write) =>
    if tasks read ≠ task then (Function.update tasks write (tasks read), write + 1)
    else (tasks, write)

def remove (q : WaitQueueInner N) (task : Option TaskPtr) : WaitQueueInner N :=
  let (tasks, write) := forRange q.len (compact task) (q.tasks, 0)
  let cleared := forRange q.len
    (fun i tasks => if i < write then tasks else Function.update tasks i none) tasks
  { q with tasks := cleared, len := write }

/-- The used cells hold the listed tasks, and the others are null. -/
structure Holds (q : WaitQueueInner N) (l : List TaskPtr) : Prop where
  cells : ∀ i, q.tasks i = l[i]?
  len : q.len = l.length
  le : l.length ≤ N
  nodup : l.Nodup

variable {q : WaitQueueInner N} {l : List TaskPtr} {p : TaskPtr}

theorem new_holds : (new N).Holds [] := ⟨fun _ => rfl, rfl, Nat.zero_le N, List.nodup_nil⟩

theorem Holds.contains_iff (h : q.Holds l) : q.contains (some p) = true ↔ p ∈ l := by
  simp only [contains, List.any_eq_true, List.mem_range, decide_eq_true_eq, h.cells, h.len]
  constructor
  · rintro ⟨i, -, hi⟩
    exact List.mem_of_getElem? hi
  · intro hp
    rcases List.getElem?_of_mem hp with ⟨i, hi⟩
    exact ⟨i, (List.getElem?_eq_some_iff.mp hi).1, hi⟩

theorem Holds.push (h : q.Holds l) (hp : p ∉ l) (hlen : l.length < N) :
    ∃ q', q.push (some p) = (true, q') ∧ q'.Holds (l ++ [p]) := by
  have hcontains : q.contains (some p) = false := by
    simpa [← h.contains_iff] using hp
  have hroom : ¬ N ≤ q.len := by
    rw [h.len]
    omega
  refine ⟨_, by simp [WaitQueueInner.push, hcontains, hroom]; rfl, ?_, ?_, ?_, ?_⟩
  · intro i
    by_cases hi : i = l.length
    · simp [hi, h.len]
    · change Function.update q.tasks q.len (some p) i = _
      rw [h.len, Function.update_of_ne hi, h.cells]
      by_cases hlt : i < l.length
      · rw [List.getElem?_append_left hlt]
      · rw [List.getElem?_append_right (by omega), List.getElem?_eq_none (by omega),
          List.getElem?_eq_none (by simp; omega)]
  · simp [h.len]
  · simp
    omega
  · simp [List.nodup_append, h.nodup]
    rintro a ha rfl
    exact hp ha

theorem Holds.push_refused (h : q.Holds l) (hp : p ∈ l ∨ N ≤ l.length) :
    q.push (some p) = (false, q) := by
  rcases hp with hp | hlen
  · simp [WaitQueueInner.push, h.contains_iff.mpr hp]
  · simp [WaitQueueInner.push, h.len, hlen]

theorem Holds.popFront_nil (h : q.Holds []) : q.popFront = (none, q) := by
  simp [WaitQueueInner.popFront, h.len]

theorem Holds.popFront_cons (h : q.Holds (p :: l)) :
    ∃ q', q.popFront = (some (some p), q') ∧ q'.Holds l := by
  have hlen : q.len = l.length + 1 := by simpa using h.len
  have hshift := forRange_induction (n := l.length)
    (f := fun i tasks => Function.update tasks i (tasks (i + 1))) (a := q.tasks)
    (fun k tasks => ∀ j, tasks j = if j < k then l[j]? else (p :: l)[j]?)
    (fun j => by simpa using h.cells j) ?_
  · refine ⟨_, by simp [WaitQueueInner.popFront, hlen, h.cells 0]; rfl, ?_, rfl, ?_, ?_⟩
    · intro i
      by_cases hi : i = l.length
      · simp [hi]
      · refine (Function.update_of_ne hi _ _).trans ?_
        rw [hshift i]
        by_cases hlt : i < l.length
        · rw [if_pos hlt]
        · rw [if_neg hlt, List.getElem?_eq_none (by simp; omega), List.getElem?_eq_none (by omega)]
    · have hle := h.le
      simp at hle
      omega
    · exact (List.nodup_cons.mp h.nodup).2
  · intro i hi tasks htasks j
    by_cases hji : j = i
    · rw [hji, Function.update_self, htasks (i + 1), if_neg (by omega), if_pos (by omega)]
      rfl
    · rw [Function.update_of_ne hji, htasks j]
      by_cases hlt : j < i
      · rw [if_pos hlt, if_pos (by omega)]
      · rw [if_neg hlt, if_neg (by omega)]

/-- After `k` turns the kept tasks among the first `k` stand at the front. -/
theorem Holds.compact (h : q.Holds l) (task : Option TaskPtr) (k : ℕ) (hk : k ≤ l.length) :
    ∀ tasks write, forRange k (compact task) (q.tasks, 0) = (tasks, write) →
      write = ((l.take k).filter (some · ≠ task)).length ∧
        ∀ j, tasks j = if j < write then ((l.take k).filter (some · ≠ task))[j]? else l[j]? := by
  induction k with
  | zero =>
    intro tasks write heq
    rw [forRange_zero, Prod.mk.injEq] at heq
    rcases heq with ⟨rfl, rfl⟩
    simp [h.cells]
  | succ k ih =>
    intro tasks write heq
    rw [forRange_succ] at heq
    rcases hprev : forRange k (WaitQueueInner.compact task) (q.tasks, 0) with ⟨t, w⟩
    rcases ih (by omega) t w hprev with ⟨hw, ht⟩
    have hwk : w ≤ k := by
      rw [hw]
      exact (List.length_filter_le _ _).trans (List.length_take_le _ _)
    have hread : t k = some l[k] := by
      rw [ht k, if_neg (by omega), List.getElem?_eq_getElem]
    have htake : l.take (k + 1) = l.take k ++ [l[k]] := by
      rw [List.take_add_one, List.getElem?_eq_getElem (by omega)]
      rfl
    rw [hprev, WaitQueueInner.compact, hread] at heq
    by_cases hkp : some l[k] = task
    · have hfilter : (l.take (k + 1)).filter (some · ≠ task) = (l.take k).filter (some · ≠ task) := by
        rw [htake, List.filter_append]
        simp [hkp]
      rw [if_neg (by simp [hkp]), Prod.mk.injEq] at heq
      rcases heq with ⟨rfl, rfl⟩
      rw [hfilter]
      exact ⟨hw, ht⟩
    · have hfilter : (l.take (k + 1)).filter (some · ≠ task) = (l.take k).filter (some · ≠ task) ++ [l[k]] := by
        rw [htake, List.filter_append]
        simp [hkp]
      rw [if_pos (by simp [hkp]), Prod.mk.injEq] at heq
      rcases heq with ⟨rfl, rfl⟩
      rw [hfilter]
      refine ⟨by simp [hw], ?_⟩
      intro j
      by_cases hjw : j = w
      · rw [hjw, Function.update_self, if_pos (by omega), hw]
        simp
      · rw [Function.update_of_ne hjw, ht j]
        by_cases hlt : j < w
        · rw [if_pos hlt, if_pos (by omega), List.getElem?_append_left (by omega)]
        · rw [if_neg hlt, if_neg (by omega)]

/-- Removing a task, or null, keeps the others in their order. -/
theorem Holds.remove_any (h : q.Holds l) (task : Option TaskPtr) : (q.remove task).Holds (l.filter (some · ≠ task)) := by
  rcases hloop : forRange q.len (WaitQueueInner.compact task) (q.tasks, 0) with ⟨tasks, write⟩
  rw [h.len] at hloop
  rcases h.compact task l.length le_rfl tasks write hloop with ⟨hwrite, htasks⟩
  rw [List.take_length] at hwrite htasks
  have hclear := forRange_induction (n := l.length)
    (f := fun i tasks => if i < write then tasks else Function.update tasks i none) (a := tasks)
    (fun k t => ∀ j, t j = if write ≤ j ∧ j < k then none else tasks j) (fun j => by simp) ?_
  · have heq : q.remove task = { q with
        tasks := forRange l.length
          (fun i tasks => if i < write then tasks else Function.update tasks i none) tasks
        len := write } := by
      simp only [WaitQueueInner.remove, h.len, hloop]
    rw [heq]
    refine ⟨?_, hwrite, (List.length_filter_le _ _).trans h.le, h.nodup.filter _⟩
    intro i
    refine (hclear i).trans ?_
    by_cases hi : i < write
    · rw [if_neg (by omega), htasks i, if_pos hi]
    · rw [List.getElem?_eq_none (by omega)]
      by_cases hil : i < l.length
      · rw [if_pos ⟨by omega, hil⟩]
      · rw [if_neg (by omega), htasks i, if_neg hi, List.getElem?_eq_none (by omega)]
  · intro i hi t ht j
    by_cases hiw : i < write
    · rw [if_pos hiw, ht j]
      by_cases hj : write ≤ j ∧ j < i
      · rw [if_pos hj, if_pos (by omega)]
      · rw [if_neg hj, if_neg (by omega)]
    · rw [if_neg hiw]
      by_cases hji : j = i
      · rw [hji, Function.update_self, if_pos (by omega)]
      · rw [Function.update_of_ne hji, ht j]
        by_cases hj : write ≤ j ∧ j < i
        · rw [if_pos hj, if_pos (by omega)]
        · rw [if_neg hj, if_neg (by omega)]

theorem Holds.remove (h : q.Holds l) : (q.remove (some p)).Holds (l.filter (· ≠ p)) := by
  have hremove := h.remove_any (some p)
  simp only [ne_eq, Option.some.injEq] at hremove
  exact hremove

end WaitQueueInner

def enqueueCurrent {N : ℕ} (s : State) (q : WaitQueueInner N) : Bool × WaitQueueInner N :=
  match s.currentTcb with
  | none => (false, q)
  | some c => q.push (some c)

def wakeOne {N : ℕ} (cfg : Config) (s : State) (q : WaitQueueInner N) :
    Bool × State × WaitQueueInner N :=
  match q.popFront with
  | (none, q) => (false, s, q)
  | (some task, q) =>
    let (woke, s) := wakeBlockedTask cfg s task
    (woke, s, if woke then { q with wakes := q.wakes + 1 }
      else { q with failedWakes := q.failedWakes + 1 })

end OpenIon.Sched
