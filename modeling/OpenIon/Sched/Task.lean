import Mathlib.Tactic

/-! # Task control blocks

The data of `sched/task.rs`. A task pointer is the index of its control block in
the pool, and a nullable pointer is an `Option`; the heap gives the block at
every index.
-/
namespace OpenIon.Sched

abbrev TaskId := UInt32
abbrev TaskPtr := ℕ

inductive CpuAffinity where
  | any
  | pin (cpu : UInt32)
  deriving Repr, DecidableEq

inductive TaskState where
  | ready
  | running
  | blocked
  | suspended
  | terminated
  | sleeping
  deriving Repr, DecidableEq

structure TaskControlBlock where
  sp : ℕ
  id : TaskId
  priority : ℕ
  wakeupTick : UInt32
  state : TaskState
  stackSize : ℕ
  entry : ℕ
  name : String
  next : Option TaskPtr
  queued : Bool
  affinity : CpuAffinity
  cpuId : UInt32
  deriving Repr, DecidableEq

namespace TaskControlBlock

def new (id : TaskId) (entry initialSp stackSize : ℕ) (priority : ℕ) (name : String) :
    TaskControlBlock where
  sp := initialSp
  id := id
  priority := priority
  wakeupTick := 0
  state := .ready
  stackSize := stackSize
  entry := entry
  name := name
  next := none
  queued := false
  affinity := .any
  cpuId := 0

def canRunOn (task : TaskControlBlock) (cpuId : UInt32) : Bool :=
  match task.affinity with
  | .any => true
  | .pin pinCpu => pinCpu == cpuId

end TaskControlBlock

abbrev Heap := TaskPtr → TaskControlBlock

namespace Heap

variable {h : Heap} {p a : TaskPtr} {t : TaskControlBlock}

/-- The link field, as the successor function of the intrusive lists. -/
def next (h : Heap) (p : TaskPtr) : Option TaskPtr := (h p).next

def set (h : Heap) (p : TaskPtr) (t : TaskControlBlock) : Heap := Function.update h p t

@[simp] theorem set_self : h.set p t p = t := Function.update_self ..

theorem set_of_ne (hne : a ≠ p) : h.set p t a = h a := Function.update_of_ne hne ..

@[simp] theorem set_set {t' : TaskControlBlock} : (h.set p t).set p t' = h.set p t' :=
  Function.update_idem ..

end Heap

end OpenIon.Sched
