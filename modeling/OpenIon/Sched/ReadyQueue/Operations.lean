import OpenIon.Sched.Task

/-! # The ready queue

Eight intrusive FIFO lists, one per priority, with a bitmap of the lists that
are not empty. The links live in the task control blocks, so every operation
takes and returns the heap.
-/
namespace OpenIon.Sched

def maxPriorities : ℕ := 8
def maxPriority : ℕ := maxPriorities - 1

structure Queue where
  head : Option TaskPtr
  tail : Option TaskPtr
  deriving Repr, DecidableEq

namespace Queue

def new : Queue := ⟨none, none⟩

def pushBack (q : Queue) (h : Heap) (task : TaskPtr) : Queue × Heap :=
  let h := h.set task { h task with next := none }
  match q.tail with
  | none => (⟨some task, some task⟩, h)
  | some tail => (⟨q.head, some task⟩, h.set tail { h tail with next := some task })

def popFront (q : Queue) (h : Heap) : Option TaskPtr × Queue × Heap :=
  match q.head with
  | none => (none, q, h)
  | some task =>
    let head := (h task).next
    (some task, ⟨head, if head.isNone then none else q.tail⟩,
      h.set task { h task with next := none })

end Queue

structure ReadyQueue where
  queues : ℕ → Queue
  taskCount : ℕ
  nonEmpty : BitVec 8
  currentPriority : ℕ

def highestPriority (mask : BitVec 8) : ℕ := 7 - mask.clz.toNat

def lowestPriority (mask : BitVec 8) : ℕ := mask.ctz.toNat

namespace ReadyQueue

def new : ReadyQueue := ⟨fun _ => Queue.new, 0, 0, 0⟩

/-- `maxTasks` is the capacity `MAX_TASKS`, which equals the number of control blocks. -/
def push (maxTasks : ℕ) (q : ReadyQueue) (h : Heap) (task : TaskPtr) : Bool × ReadyQueue × Heap :=
  if (h task).queued then (false, q, h)
  else if (h task).state ≠ .ready ∨ (h task).next.isSome then (false, q, h)
  else if maxTasks ≤ q.taskCount then (false, q, h)
  else
    let priority := (h task).priority
    if maxPriorities ≤ priority then (false, q, h)
    else
      let (queue, h) := (q.queues priority).pushBack h task
      (true,
        { q with
          queues := Function.update q.queues priority queue
          taskCount := q.taskCount + 1
          nonEmpty := q.nonEmpty ||| (1#8 <<< priority) },
        h.set task { h task with queued := true })

/-- Take the oldest task of one priority list: the part that the pop operations share. -/
def popAt (q : ReadyQueue) (h : Heap) (priority : ℕ) : Option TaskPtr × ReadyQueue × Heap :=
  match (q.queues priority).popFront h with
  | (none, _, _) => (none, q, h)
  | (some task, queue, h) =>
    (some task,
      { q with
        queues := Function.update q.queues priority queue
        taskCount := q.taskCount - 1
        nonEmpty := if queue.head.isNone then q.nonEmpty &&& ~~~(1#8 <<< priority)
          else q.nonEmpty },
      h.set task { h task with queued := false })

def popHighest (q : ReadyQueue) (h : Heap) : Option TaskPtr × ReadyQueue × Heap :=
  if q.nonEmpty = 0 then (none, q, h)
  else
    let priority := highestPriority q.nonEmpty
    let (task, q, h) := q.popAt h priority
    (task, { q with currentPriority := priority }, h)

def popLowest (q : ReadyQueue) (h : Heap) : Option TaskPtr × ReadyQueue × Heap :=
  if q.nonEmpty = 0 then (none, q, h) else q.popAt h (lowestPriority q.nonEmpty)

def popLowestRaw (q : ReadyQueue) (h : Heap) : Option TaskPtr × ReadyQueue × Heap :=
  if q.nonEmpty = 0 then (none, q, h) else q.popAt h (lowestPriority q.nonEmpty)

def pushRaw (maxTasks : ℕ) (q : ReadyQueue) (h : Heap) (task : Option TaskPtr) :
    Bool × ReadyQueue × Heap :=
  match task with
  | none => (false, q, h)
  | some task => q.push maxTasks h task

def peekHighestPriority (q : ReadyQueue) : ℕ :=
  if q.nonEmpty = 0 then 0 else highestPriority q.nonEmpty

def isEmpty (q : ReadyQueue) : Bool := q.taskCount == 0

def len (q : ReadyQueue) : ℕ := q.taskCount

end ReadyQueue

end OpenIon.Sched
