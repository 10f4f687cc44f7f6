import OpenIon.Mm.Slab
import OpenIon.Sched.ReadyQueue.Operations

/-! # The scheduler state

The per-CPU run queues, the sleep list, the task pool, the tick counter and the
two context-switch pointers `CURRENT_TCB` and `NEXT_TCB`. What the build and the
platform fix for one CPU is a `Config`.
-/
namespace OpenIon.Sched
open Mm

/-- Build constants and platform answers. The pool is a static array of `TASK_CAP`
control blocks, fewer than there are task ids. -/
structure Config where
  taskCap : ℕ
  taskCap_lt : taskCap < 2 ^ 32
  maxCpus : ℕ
  maxCpus_pos : 0 < maxCpus
  usizeBits : ℕ
  cpuId : ℕ
  activeMask : ℕ

structure CpuScheduler where
  readyQueue : ReadyQueue
  idleTask : Option TaskId
  preemptPending : Bool
  contextSwitches : UInt64
  preemptions : UInt64
  stealAttempts : ℕ
  stealSuccesses : ℕ

def CpuScheduler.new : CpuScheduler := ⟨ReadyQueue.new, none, false, 0, 0, 0, 0⟩

structure State where
  pool : Slab TaskControlBlock
  cpuScheds : ℕ → CpuScheduler
  taskIdCounter : TaskId
  sleepQueue : Option TaskPtr
  currentTcb : Option TaskPtr
  nextTcb : Option TaskPtr
  ticks : UInt32

namespace State

def heap (s : State) : Heap := s.pool.data

def setHeap (s : State) (h : Heap) : State := { s with pool := { s.pool with data := h } }

def setTask (s : State) (p : TaskPtr) (t : TaskControlBlock) : State := s.setHeap (s.heap.set p t)

def setCpu (s : State) (cpu : ℕ) (c : CpuScheduler) : State :=
  { s with cpuScheds := Function.update s.cpuScheds cpu c }

def setNextTaskPtr (s : State) (p : Option TaskPtr) : State := { s with nextTcb := p }

def keepCurrentTask (s : State) : State := s.setNextTaskPtr s.currentTcb

def setPreemptPending (s : State) (cpu : ℕ) (pending : Bool) : State :=
  s.setCpu cpu { s.cpuScheds cpu with preemptPending := pending }

/-- Store a ready queue of one CPU together with the heap that holds its links. -/
def setReadyQueue (s : State) (cpu : ℕ) (q : ReadyQueue) (h : Heap) : State :=
  (s.setHeap h).setCpu cpu { s.cpuScheds cpu with readyQueue := q }

def withBlock (s : State) (pool : Slab TaskControlBlock) : State :=
  { s with pool := pool, taskIdCounter := s.taskIdCounter + 1 }

def IsTask (s : State) (p : TaskPtr) : Prop := s.pool.live p = true

instance (s : State) (p : TaskPtr) : Decidable (s.IsTask p) :=
  inferInstanceAs (Decidable (s.pool.live p = true))

def isRunning (s : State) (p : TaskPtr) : Bool := (s.heap p).state = .running

/-- The task that executes: the current one while it is running. -/
def caller (s : State) : Option TaskPtr := s.currentTcb.filter s.isRunning

variable {s : State} {p a : TaskPtr} {n : Option TaskPtr} {t : TaskControlBlock} {h : Heap}
  {cpu i : ℕ} {c : CpuScheduler} {q : ReadyQueue} {b : Bool}

theorem caller_eq_some :
    s.caller = some p ↔ s.currentTcb = some p ∧ (s.heap p).state = .running := by
  simp [caller, Option.filter_eq_some_iff, isRunning]

@[simp] theorem heap_setHeap : (s.setHeap h).heap = h := rfl
@[simp] theorem heap_setTask : (s.setTask p t).heap = s.heap.set p t := rfl
@[simp] theorem heap_setCpu : (s.setCpu cpu c).heap = s.heap := rfl
@[simp] theorem heap_setReadyQueue : (s.setReadyQueue cpu q h).heap = h := rfl
@[simp] theorem heap_setNextTaskPtr : (s.setNextTaskPtr n).heap = s.heap := rfl
@[simp] theorem heap_setPreemptPending : (s.setPreemptPending cpu b).heap = s.heap := rfl

@[simp] theorem isTask_setTask : (s.setTask p t).IsTask a ↔ s.IsTask a := Iff.rfl
@[simp] theorem isTask_setReadyQueue : (s.setReadyQueue cpu q h).IsTask a ↔ s.IsTask a := Iff.rfl

@[simp] theorem readyQueue_setReadyQueue :
    ((s.setReadyQueue cpu q h).cpuScheds cpu).readyQueue = q := by
  simp [setReadyQueue, setCpu]

@[simp] theorem readyQueue_setPreemptPending :
    ((s.setPreemptPending cpu b).cpuScheds i).readyQueue = (s.cpuScheds i).readyQueue := by
  by_cases hi : i = cpu
  · simp [setPreemptPending, setCpu, hi]
  · simp [setPreemptPending, setCpu, Function.update_of_ne hi]

@[simp] theorem preemptPending_setPreemptPending :
    ((s.setPreemptPending cpu b).cpuScheds cpu).preemptPending = b := by
  simp [setPreemptPending, setCpu]

end State

namespace Config

def activeCpuMask (cfg : Config) : ℕ := if cfg.activeMask = 0 then 1 else cfg.activeMask

def cpuBit (cfg : Config) (cpu : ℕ) : Option ℕ :=
  if cpu < cfg.usizeBits then some (1 <<< cpu) else none

def isCpuActive (cfg : Config) (cpu : ℕ) : Bool :=
  match cfg.cpuBit cpu with
  | some bit => cfg.activeCpuMask &&& bit ≠ 0
  | none => false

def currentSchedulerCpuId (cfg : Config) : ℕ :=
  let current := cfg.cpuId % cfg.maxCpus
  if cfg.isCpuActive current then current else 0

end Config

/-- The active CPU with the shortest run queue, as the loop over all CPUs finds it. -/
def shortestQueue (cfg : Config) (s : State) (best : ℕ × Option ℕ) : List ℕ → ℕ × Option ℕ
  | [] => best
  | i :: cpus =>
    let len := (s.cpuScheds i).readyQueue.len
    if cfg.isCpuActive i && best.2.all (len < ·) then shortestQueue cfg s (i, some len) cpus
    else shortestQueue cfg s best cpus

def selectCpuForTask (cfg : Config) (s : State) (task : TaskControlBlock) : ℕ :=
  match task.affinity with
  | .pin cpu =>
    let target := cpu.toNat % cfg.maxCpus
    if cfg.isCpuActive target then target else cfg.currentSchedulerCpuId
  | .any => (shortestQueue cfg s (cfg.currentSchedulerCpuId, none) (List.range cfg.maxCpus)).1

/-- Whether a task of this priority, just made ready, should preempt the current one. -/
def checkPreemptNeeded (s : State) (priority : ℕ) : Bool :=
  match s.currentTcb with
  | none => false
  | some current => s.isRunning current && decide ((s.heap current).priority < priority)

def hasHigherReadyThanCurrent (s : State) (cpu : ℕ) : Bool :=
  match s.currentTcb with
  | none => false
  | some current =>
    !(s.cpuScheds cpu).readyQueue.isEmpty && (s.isRunning current &&
      decide ((s.heap current).priority < (s.cpuScheds cpu).readyQueue.peekHighestPriority))

end OpenIon.Sched
