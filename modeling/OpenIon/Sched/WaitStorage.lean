import OpenIon.Sched.WaitQueue
import OpenIon.Lib.Replies

/-! # Wait queues over whole histories

The operations of `WaitQueueInner` against a plain queue: a list without duplicates that grows at
its end. The array answers every sequence of operations as the list does.
-/
namespace OpenIon.Sched
open Lib

namespace WaitQueueInner

variable {N : ℕ}

/-- One turn of the loop of `take_all`, with the array `out` and the array of the queue. -/
def drain (i : ℕ) (arrays : (ℕ → Option TaskPtr) × (ℕ → Option TaskPtr)) :
    (ℕ → Option TaskPtr) × (ℕ → Option TaskPtr) :=
  (Function.update arrays.1 i (arrays.2 i), Function.update arrays.2 i none)

def takeAll (q : WaitQueueInner N) (out : ℕ → Option TaskPtr) :
    ℕ × (ℕ → Option TaskPtr) × WaitQueueInner N :=
  let arrays := forRange q.len drain (out, q.tasks)
  (q.len, arrays.1, { q with tasks := arrays.2, len := 0 })

variable {q : WaitQueueInner N} {l : List TaskPtr}

theorem forRange_drain (k : ℕ) (out tasks : ℕ → Option TaskPtr) :
    forRange k drain (out, tasks) =
      (fun j => if j < k then tasks j else out j, fun j => if j < k then none else tasks j) := by
  induction k with
  | zero => simp
  | succ k ih =>
    rw [forRange_succ, ih, drain]
    ext j : 2
    · by_cases hj : j = k
      · simp [hj]
      · simp only [Function.update_of_ne hj]
        exact if_congr (by omega) rfl rfl
    · by_cases hj : j = k
      · simp [hj]
      · simp only [Function.update_of_ne hj]
        exact if_congr (by omega) rfl rfl

theorem Holds.takeAll (h : q.Holds l) (out : ℕ → Option TaskPtr) :
    (q.takeAll out).1 = l.length ∧
      (q.takeAll out).2.1 = (fun j => if j < l.length then l[j]? else out j) ∧
      (q.takeAll out).2.2.Holds [] := by
  simp only [WaitQueueInner.takeAll, forRange_drain, h.len, h.cells]
  refine ⟨trivial, trivial, fun j => ?_, rfl, Nat.zero_le N, List.nodup_nil⟩
  by_cases hj : j < l.length
  · simp [hj]
  · simp [hj]

end WaitQueueInner

inductive WaitOp where
  | push (task : Option TaskPtr)
  | popFront
  | remove (task : Option TaskPtr)
  | takeAll (out : ℕ → Option TaskPtr)

inductive WaitReply where
  | pushed (accepted : Bool)
  | popped (task : Option (Option TaskPtr))
  | removed
  | taken (count : ℕ) (out : ℕ → Option TaskPtr)

namespace WaitQueueInner

variable {N : ℕ}

def serve (q : WaitQueueInner N) : WaitOp → WaitReply × WaitQueueInner N
  | .push task => (.pushed (q.push task).1, (q.push task).2)
  | .popFront => (.popped q.popFront.1, q.popFront.2)
  | .remove task => (.removed, q.remove task)
  | .takeAll out => (.taken (q.takeAll out).1 (q.takeAll out).2.1, (q.takeAll out).2.2)

/-- Null, a task that waits already and a task beyond the capacity are refused. -/
def Refuses (N : ℕ) (l : List TaskPtr) (task : Option TaskPtr) : Prop :=
  task = none ∨ task ∈ l.map some ∨ N ≤ l.length

instance decidableRefuses (l : List TaskPtr) (task : Option TaskPtr) : Decidable (Refuses N l task) :=
  inferInstanceAs (Decidable (_ ∨ _ ∨ _))

/-- The plain queue: `l` is in the order of arrival. -/
def serveList (N : ℕ) (l : List TaskPtr) : WaitOp → WaitReply × List TaskPtr
  | .push task => if Refuses N l task then (.pushed false, l) else (.pushed true, l ++ task.toList)
  | .popFront => (.popped (l.head?.map some), l.tail)
  | .remove task => (.removed, l.filter (some · ≠ task))
  | .takeAll out => (.taken l.length fun j => if j < l.length then l[j]? else out j, [])

variable {q : WaitQueueInner N} {l : List TaskPtr}

theorem Holds.push_of_refuses (h : q.Holds l) {task : Option TaskPtr} (hr : Refuses N l task) :
    q.push task = (false, q) := by
  cases task with
  | none => simp [WaitQueueInner.push]
  | some p =>
    refine h.push_refused ((hr.resolve_left (by simp)).imp_left fun hp => ?_)
    simpa using hp

theorem Holds.push_of_not_refuses (h : q.Holds l) {task : Option TaskPtr}
    (hr : ¬Refuses N l task) :
    ∃ q', q.push task = (true, q') ∧ q'.Holds (l ++ task.toList) := by
  cases task with
  | none => exact absurd (.inl rfl) hr
  | some p =>
    have hp : p ∉ l := fun hp => hr (.inr (.inl (List.mem_map_of_mem hp)))
    have hlen : l.length < N := Nat.not_le.mp fun hle => hr (.inr (.inr hle))
    exact h.push hp hlen

/-- One operation: the array answers as the list does. -/
theorem Holds.serve (h : q.Holds l) (op : WaitOp) :
    (q.serve op).1 = (serveList N l op).1 ∧ (q.serve op).2.Holds (serveList N l op).2 := by
  cases op with
  | push task =>
    rw [WaitQueueInner.serve, serveList]
    by_cases hr : Refuses N l task
    · rw [if_pos hr, h.push_of_refuses hr]
      exact ⟨rfl, h⟩
    · obtain ⟨q', hpush, hq'⟩ := h.push_of_not_refuses hr
      rw [if_neg hr, hpush]
      exact ⟨rfl, hq'⟩
  | popFront =>
    rw [WaitQueueInner.serve, serveList]
    cases l with
    | nil =>
      rw [h.popFront_nil]
      exact ⟨rfl, h⟩
    | cons p l =>
      obtain ⟨q', hpop, hq'⟩ := h.popFront_cons
      rw [hpop]
      exact ⟨rfl, hq'⟩
  | remove task => exact ⟨rfl, h.remove_any task⟩
  | takeAll out =>
    obtain ⟨hcount, hout, hempty⟩ := h.takeAll out
    rw [WaitQueueInner.serve, serveList, hcount, hout]
    exact ⟨rfl, hempty⟩

/-- After any history the array holds the list of the plain queue, it has answered as the plain
queue does, and it refuses exactly what the plain queue refuses, without a change. -/
theorem wait_queue_storage (N : ℕ) (ops : List WaitOp) :
    (replies serve (new N) ops).1 = (replies (serveList N) [] ops).1 ∧
      (replies serve (new N) ops).2.Holds (replies (serveList N) [] ops).2 ∧
      ∀ task, (((replies serve (new N) ops).2.push task).1 = false ↔
          Refuses N (replies (serveList N) [] ops).2 task) ∧
        (((replies serve (new N) ops).2.push task).1 = false →
          ((replies serve (new N) ops).2.push task).2 = (replies serve (new N) ops).2) := by
  obtain ⟨hreplies, hholds⟩ := replies_simulate (R := Holds)
    (fun (q : WaitQueueInner N) l op h => h.serve op) new_holds ops
  refine ⟨hreplies, hholds, fun task => ?_⟩
  by_cases hr : Refuses N (replies (serveList N) [] ops).2 task
  · rw [hholds.push_of_refuses hr]
    exact ⟨iff_of_true rfl hr, fun _ => rfl⟩
  · obtain ⟨q', hpush, -⟩ := hholds.push_of_not_refuses hr
    rw [hpush]
    exact ⟨iff_of_false (by simp) hr, fun h => by cases h⟩

end WaitQueueInner

end OpenIon.Sched
