import OpenIon.Sched.Scheduler
import OpenIon.Lib.Loop

/-! # The async executor

The slots of `sched/async_rt.rs` and the sections that `EXECUTOR.lock()` guards.
An executor polls futures it knows nothing about, so their type is a parameter.
A slot whose future has been taken for a poll looks like a free one.
-/
namespace OpenIon.Sched.Async
open Lib

variable {φ : Type*} {N : ℕ}

structure AsyncSlot (φ : Type*) where
  future : Option φ
  name : String
  ready : Bool

def AsyncSlot.empty : AsyncSlot φ := ⟨none, "", false⟩

/-- `NO_TASK` is `none`. -/
structure SleepSlot where
  taskIdx : Option ℕ
  wakeTick : UInt32
  active : Bool

def SleepSlot.empty : SleepSlot := ⟨none, 0, false⟩

inductive SpawnError where
  | disabled
  | noSlots
  | invalidConfig
  deriving DecidableEq

/-- The executor with its `N` slots. The code does not have the field `woken`: it records for which
slots a wake was issued since the future was taken for a poll that has not returned `Ready`. -/
structure Executor (N : ℕ) (φ : Type*) where
  slots : ℕ → AsyncSlot φ
  sleepSlots : ℕ → SleepSlot
  spawned : UInt64
  completed : UInt64
  polls : UInt64
  wakes : UInt64
  woken : ℕ → Bool

namespace Executor

def new (N : ℕ) (φ : Type*) : Executor N φ :=
  ⟨fun _ => .empty, fun _ => .empty, 0, 0, 0, 0, fun _ => false⟩

def setSlot (e : Executor N φ) (idx : ℕ) (slot : AsyncSlot φ) : Executor N φ :=
  { e with slots := Function.update e.slots idx slot }

def setSleep (e : Executor N φ) (i : ℕ) (slot : SleepSlot) : Executor N φ :=
  { e with sleepSlots := Function.update e.sleepSlots i slot }

def setWoken (e : Executor N φ) (idx : ℕ) (woken : Bool) : Executor N φ :=
  { e with woken := Function.update e.woken idx woken }

def isFree (e : Executor N φ) (idx : ℕ) : Bool := (e.slots idx).future.isNone

def activeCount (e : Executor N φ) : ℕ :=
  (List.range N).countP fun idx => (e.slots idx).future.isSome

/-- `mark_ready`: a wake for a slot that holds no future has no effect. -/
def markReady (e : Executor N φ) (idx : ℕ) : Executor N φ :=
  if idx < N then
    if (e.slots idx).future.isSome then
      { (e.setWoken idx true).setSlot idx { e.slots idx with ready := true } with
        wakes := e.wakes + 1 }
    else e.setWoken idx true
  else e

def findSleep (e : Executor N φ) (taskIdx : ℕ) : Option ℕ :=
  (List.range N).find? fun i => (e.sleepSlots i).active && (e.sleepSlots i).taskIdx == some taskIdx

/-- `register_sleep`: when no sleep slot is left, the task is woken at once. -/
def registerSleep (e : Executor N φ) (taskIdx : ℕ) (wakeTick : UInt32) : Executor N φ :=
  match e.findSleep taskIdx with
  | some i => e.setSleep i { e.sleepSlots i with wakeTick := wakeTick }
  | none =>
    match (List.range N).find? fun i => !(e.sleepSlots i).active with
    | some i => e.setSleep i ⟨some taskIdx, wakeTick, true⟩
    | none => e.markReady taskIdx

def clearSleep (e : Executor N φ) (taskIdx : ℕ) : Executor N φ :=
  match e.findSleep taskIdx with
  | some i => e.setSleep i .empty
  | none => e

/-- `spawn`, with the constant `OPENION_ASYNC_RT` as an argument. -/
def spawn (asyncRt : Bool) (e : Executor N φ) (name : String) (future : φ) :
    Except SpawnError ℕ × Executor N φ :=
  if !asyncRt then (.error .disabled, e)
  else if N = 0 then (.error .invalidConfig, e)
  else
    match (List.range N).find? e.isFree with
    | some idx =>
      (.ok idx, { e.setSlot idx ⟨some future, name, true⟩ with spawned := e.spawned + 1 })
    | none => (.error .noSlots, e)

def takeSlot (e : Executor N φ) (idx : ℕ) : Executor N φ :=
  (e.setSlot idx { e.slots idx with future := none, ready := false }).setWoken idx false

/-- The first section of `poll_once` for one slot: the future is taken out if it is ready. -/
def take (e : Executor N φ) (idx : ℕ) : Option φ × Executor N φ :=
  if (e.slots idx).ready then ((e.slots idx).future, e.takeSlot idx) else (none, e)

/-- The section of `poll_once` after the poll has returned `Pending`. -/
def putBack (e : Executor N φ) (idx : ℕ) (future : φ) : Executor N φ :=
  { e.setSlot idx { e.slots idx with future := some future } with polls := e.polls + 1 }

/-- The section of `poll_once` after the poll has returned `Ready`. -/
def complete (e : Executor N φ) (idx : ℕ) : Executor N φ :=
  { ((e.setSlot idx { e.slots idx with name := "", ready := false }).setWoken idx false).clearSleep
      idx with
    polls := e.polls + 1, completed := e.completed + 1 }

/-- One turn of the loop of `tick_update`. -/
def wakeSleep (now : UInt32) (i : ℕ) (e : Executor N φ) : Executor N φ :=
  let sleep := e.sleepSlots i
  if sleep.active && isDue now sleep.wakeTick then
    match sleep.taskIdx with
    | some idx => (e.setSleep i .empty).markReady idx
    | none => e.setSleep i .empty
  else e

def tickUpdate (asyncRt : Bool) (e : Executor N φ) (now : UInt32) : Executor N φ :=
  if asyncRt then forRange N (wakeSleep now) e else e

def wakeTask (e : Executor N φ) (idx : ℕ) : Executor N φ := if idx < N then e.markReady idx else e

end Executor

structure SleepTicks where
  wakeTick : UInt32
  registered : Bool

/-- `SleepTicks::poll`, with `CURRENT_POLL_TASK`: the first poll registers the sleep. -/
def SleepTicks.poll (f : SleepTicks) (now : UInt32) (current : Option ℕ) (e : Executor N φ) :
    Bool × SleepTicks × Executor N φ :=
  if isDue now f.wakeTick then (true, f, e)
  else if f.registered then (false, f, e)
  else
    match current with
    | some taskIdx => (false, { f with registered := true }, e.registerSleep taskIdx f.wakeTick)
    | none => (false, f, e)

/-- The wakes that leave the slots in place: some tasks are marked ready, some sleeps are
registered or cleared. -/
inductive Woke : Executor N φ → Executor N φ → Prop where
  | refl (e : Executor N φ) : Woke e e
  | sleep {e m : Executor N φ} (i : ℕ) (slot : SleepSlot) (h : Woke e m) : Woke e (m.setSleep i slot)
  | mark {e m : Executor N φ} (idx : ℕ) (h : Woke e m) : Woke e (m.markReady idx)

variable {e m : Executor N φ} {idx : ℕ}

theorem Executor.clearSleep_eq (e : Executor N φ) (taskIdx : ℕ) :
    e.clearSleep taskIdx = { e with sleepSlots := (e.clearSleep taskIdx).sleepSlots } := by
  rw [clearSleep]
  split
  · rfl
  · rfl

theorem Executor.complete_eq (e : Executor N φ) (idx : ℕ) :
    e.complete idx = { (e.setSlot idx { e.slots idx with name := "", ready := false }).setWoken
        idx false with
      sleepSlots := (e.complete idx).sleepSlots
      polls := e.polls + 1
      completed := e.completed + 1 } := by
  rw [complete, clearSleep_eq]

theorem Executor.slots_markReady (e : Executor N φ) (j idx : ℕ) :
    (e.markReady j).slots idx = { e.slots idx with
      ready := (e.slots idx).ready || (decide (idx = j ∧ j < N) && (e.slots idx).future.isSome) } := by
  by_cases hj : j < N
  · by_cases hidx : idx = j
    · subst hidx
      rcases hs : e.slots idx with ⟨future, name, ready⟩
      cases future with
      | none => simp [markReady, hj, hs, setWoken]
      | some f => simp [markReady, hj, hs, setWoken, setSlot]
    · by_cases hf : (e.slots j).future.isSome = true
      · simp [markReady, hj, hf, hidx, setWoken, setSlot]
      · simp [markReady, hj, hf, hidx, setWoken]
  · simp [markReady, hj]

theorem Executor.woken_markReady (e : Executor N φ) (j idx : ℕ) :
    (e.markReady j).woken idx = (e.woken idx || decide (idx = j ∧ j < N)) := by
  by_cases hj : j < N
  · have hset : (e.markReady j).woken = (e.setWoken j true).woken := by
      rw [markReady, if_pos hj]
      split
      · rfl
      · rfl
    by_cases hidx : idx = j
    · simp [hset, setWoken, hidx, hj]
    · simp [hset, setWoken, hidx]
  · simp [markReady, hj]

theorem Woke.wakeTask (h : Woke e m) : Woke e (m.wakeTask idx) := by
  rw [Executor.wakeTask]
  split
  · exact h.mark idx
  · exact h

theorem Woke.registerSleep (h : Woke e m) (wakeTick : UInt32) :
    Woke e (m.registerSleep idx wakeTick) := by
  rw [Executor.registerSleep]
  split
  · exact h.sleep _ _
  · split
    · exact h.sleep _ _
    · exact h.mark idx

theorem Woke.wakeSleep (h : Woke e m) (now : UInt32) (i : ℕ) :
    Woke e (Executor.wakeSleep now i m) := by
  simp only [Executor.wakeSleep]
  split
  · split
    · exact (h.sleep _ _).mark _
    · exact h.sleep _ _
  · exact h

theorem Woke.tickUpdate (asyncRt : Bool) (now : UInt32) : Woke e (e.tickUpdate asyncRt now) := by
  rw [Executor.tickUpdate]
  split
  · apply forRange_induction (fun _ m => Woke e m) (.refl e)
    intro i _ m hm
    exact hm.wakeSleep now i
  · exact .refl e

theorem Woke.pollSleep (f : SleepTicks) (now : UInt32) (current : Option ℕ) :
    Woke e (f.poll now current e).2.2 := by
  unfold SleepTicks.poll
  split
  · exact .refl e
  · split
    · exact .refl e
    · cases current with
      | none => exact .refl e
      | some taskIdx => exact (Woke.refl e).registerSleep f.wakeTick

/-- Wakes leave every future where it is and take no ready flag back. -/
theorem slot_of_woke (idx : ℕ) (h : Woke e m) :
    (m.slots idx).future = (e.slots idx).future ∧
      ((e.slots idx).ready = true → (m.slots idx).ready = true) := by
  induction h with
  | refl => exact ⟨rfl, id⟩
  | sleep i slot _ ih => exact ih
  | mark i _ ih =>
    rw [Executor.slots_markReady]
    exact ⟨ih.1, fun hready => by simp [ih.2 hready]⟩

end OpenIon.Sched.Async
