import OpenIon.Sched.State

/-! # Scheduler operations

The interrupt-disabled sections of `sched/mod.rs`, one function each. A call of
`yield_task` that follows such a section is a trap of its own and is not part of
the section. `none` stands for a run that does not return: the panic for lack of
a control block, or a sleep list whose links never end.
-/
namespace OpenIon.Sched
open Mm

/-- Priority, entry address, initial stack pointer, stack size and name of a new task. -/
structure TaskArgs where
  entry : ℕ
  initialSp : ℕ
  stackSize : ℕ
  priority : ℕ
  name : String

def taskIdInvalid : TaskId := 0xFFFFFFFF

/-- Push a ready task on one CPU and record the preemption verdict for it. -/
def enqueueOn (cfg : Config) (s : State) (cpu : ℕ) (p : TaskPtr) : Bool × State :=
  match (s.cpuScheds cpu).readyQueue.push cfg.taskCap s.heap p with
  | (false, _, _) => (false, s)
  | (true, q, h) =>
    let s := s.setReadyQueue cpu q h
    (true, s.setPreemptPending cpu (checkPreemptNeeded s (s.heap p).priority))

def createTaskOnCpu (cfg : Config) (s : State) (args : TaskArgs) (targetCpu : ℕ) :
    Option (TaskId × State) :=
  let priority := min args.priority maxPriority
  let tcb := TaskControlBlock.new 0 args.entry args.initialSp args.stackSize priority args.name
  match s.pool.alloc cfg.taskCap tcb with
  | none => none
  | some (p, pool) =>
    let id := s.taskIdCounter
    let s := s.withBlock pool
    let s := s.setTask p { s.heap p with id := id }
    let (pushed, s) := enqueueOn cfg s (targetCpu % cfg.maxCpus) p
    let id := if pushed then id else taskIdInvalid
    if id ≠ taskIdInvalid then some (id, s)
    else some (id, { s with pool := s.pool.free cfg.taskCap p })

def createTask (cfg : Config) (s : State) (args : TaskArgs) : Option (TaskId × State) :=
  createTaskOnCpu cfg s args cfg.currentSchedulerCpuId

/-- `current_tick.wrapping_sub(wakeup_tick) < u32::MAX / 2`. -/
def isDue (now wakeupTick : UInt32) : Bool := now - wakeupTick < 0x7FFFFFFF

/-- Take `curr` out of the sleep list; `prev` is the node before it, null at the head. -/
def unlinkSleeper (s : State) (prev next : Option TaskPtr) : State :=
  match prev with
  | none => { s with sleepQueue := next }
  | some prev => s.setTask prev { s.heap prev with next := next }

/-- One due sleeper: unlink it and push it, or put it back at the head when refused. -/
def wakeSleeper (cfg : Config) (s : State) (prev : Option TaskPtr) (curr : TaskPtr) : State :=
  let s := unlinkSleeper s prev (s.heap curr).next
  let s := s.setTask curr { s.heap curr with state := .ready, next := none }
  let (pushed, s) := enqueueOn cfg s (selectCpuForTask cfg s (s.heap curr)) curr
  if pushed then s
  else
    let s := s.setTask curr
      { s.heap curr with state := .sleeping, wakeupTick := s.ticks, next := s.sleepQueue }
    { s with sleepQueue := some curr }

/-- The loop over the sleep list, cut off when it has visited more nodes than `fuel`. -/
def tickLoop (cfg : Config) : ℕ → State → Option TaskPtr → Option TaskPtr → Option State
  | _, s, _, none => some s
  | 0, _, _, some _ => none
  | fuel + 1, s, prev, some curr =>
    let next := (s.heap curr).next
    if isDue s.ticks (s.heap curr).wakeupTick then
      tickLoop cfg fuel (wakeSleeper cfg s prev curr) prev next
    else tickLoop cfg fuel s (some curr) next

def tickUpdate (cfg : Config) (s : State) : Option State :=
  tickLoop cfg cfg.taskCap s none s.sleepQueue

/-- Work stealing: try the given offsets from `cpu` in order. -/
def stealFrom (cfg : Config) (cpu : ℕ) : List ℕ → State → Option TaskPtr × State
  | [], s => (none, s)
  | offset :: offsets, s =>
    let victim := (cpu + offset) % cfg.maxCpus
    if !cfg.isCpuActive victim then stealFrom cfg cpu offsets s
    else if (s.cpuScheds victim).readyQueue.len ≤ 1 then stealFrom cfg cpu offsets s
    else
      match (s.cpuScheds victim).readyQueue.popLowestRaw s.heap with
      | (none, q, h) =>
        stealFrom cfg cpu offsets (s.setReadyQueue victim q h)
      | (some task, q, h) =>
        let s := s.setReadyQueue victim q h
        if (s.heap task).canRunOn (UInt32.ofNat cpu) then
          (some task, s.setCpu cpu
            { s.cpuScheds cpu with stealSuccesses := (s.cpuScheds cpu).stealSuccesses + 1 })
        else
          let (_, q, h) := (s.cpuScheds victim).readyQueue.pushRaw cfg.taskCap s.heap (some task)
          stealFrom cfg cpu offsets (s.setReadyQueue victim q h)

def tryStealTask (cfg : Config) (s : State) (cpu : ℕ) : Option TaskPtr × State :=
  stealFrom cfg cpu ((List.range cfg.maxCpus).tail) (s.setCpu cpu
    { s.cpuScheds cpu with stealAttempts := (s.cpuScheds cpu).stealAttempts + 1 })

/-- Pop the local queue, and steal when it is empty and there is another CPU. -/
def takeNext (cfg : Config) (s : State) (cpu : ℕ) : Option TaskPtr × State :=
  match (s.cpuScheds cpu).readyQueue.popHighest s.heap with
  | (some p, q, h) =>
    (some p, s.setReadyQueue cpu q h)
  | (none, _, _) => if 1 < cfg.maxCpus then tryStealTask cfg s cpu else (none, s)

def currentRunningPriority (s : State) : Option ℕ :=
  match s.currentTcb with
  | none => none
  | some p => if s.isRunning p then some (s.heap p).priority else none

def countSwitch (s : State) (cpu : ℕ) (currentPriority : Option ℕ) (nextPriority : ℕ) : State :=
  let c := s.cpuScheds cpu
  s.setCpu cpu
    { c with
      contextSwitches := c.contextSwitches + 1
      preemptions := if currentPriority.any (· < nextPriority) then c.preemptions + 1
        else c.preemptions }

/-- Run the chosen task, or keep the current one when there is none to choose. -/
def dispatchNext (s : State) (cpu : ℕ) (currentPriority : Option ℕ) :
    Option TaskPtr → Bool × State
  | none => (false, s.setNextTaskPtr s.currentTcb)
  | some p =>
    let s := s.setTask p { s.heap p with state := .running, cpuId := UInt32.ofNat cpu }
    let s := s.setNextTaskPtr (some p)
    if s.currentTcb ≠ some p then (true, countSwitch s cpu currentPriority (s.heap p).priority)
    else (false, s)

def requeueCurrent (cfg : Config) (s : State) (cpu : ℕ) : Bool × State :=
  match s.currentTcb with
  | none => (true, s)
  | some p =>
    if s.isRunning p then
      let ready := s.setTask p { s.heap p with state := .ready }
      match (ready.cpuScheds cpu).readyQueue.push cfg.taskCap ready.heap p with
      | (true, q, h) =>
        (true, ready.setReadyQueue cpu q h)
      | (false, _, _) => (false, ready.setTask p { ready.heap p with state := .running })
    else (true, s)

def scheduleCpuLocked (cfg : Config) (s : State) (cpu : ℕ) : Bool × State :=
  let s := s.setPreemptPending cpu false
  let currentPriority := currentRunningPriority s
  let q := (s.cpuScheds cpu).readyQueue
  if currentPriority.any fun priority => q.isEmpty || decide (q.peekHighestPriority < priority) then
    (false, s.setNextTaskPtr s.currentTcb)
  else
    match requeueCurrent cfg s cpu with
    | (false, s) => (false, s.setNextTaskPtr s.currentTcb)
    | (true, s) =>
      let (next, s) := takeNext cfg s cpu
      dispatchNext s cpu currentPriority next

def schedule (cfg : Config) (s : State) : Bool × State :=
  scheduleCpuLocked cfg s cfg.currentSchedulerCpuId

def preemptPending (cfg : Config) (s : State) : Bool :=
  let cpu := cfg.currentSchedulerCpuId
  (s.cpuScheds cpu).preemptPending && hasHigherReadyThanCurrent s cpu

def scheduleIfPreemptPending (cfg : Config) (s : State) : Bool × State :=
  let cpu := cfg.currentSchedulerCpuId
  if preemptPending cfg s then scheduleCpuLocked cfg s cpu
  else (false, (s.setPreemptPending cpu false).keepCurrentTask)

/-- The section of `delay`: the current task goes to the head of the sleep list. -/
def delay (s : State) (ticks : UInt32) : Bool × State :=
  match s.currentTcb with
  | none => (false, s)
  | some p =>
    let s := s.setTask p
      { s.heap p with state := .sleeping, wakeupTick := s.ticks + ticks, next := s.sleepQueue }
    (true, { s with sleepQueue := some p })

def terminateCurrent (cfg : Config) (s : State) : Bool × State :=
  match s.currentTcb with
  | none => (false, s)
  | some p =>
    scheduleCpuLocked cfg (s.setTask p { s.heap p with state := .terminated, next := none })
      cfg.currentSchedulerCpuId

def blockCurrentTaskIrqDisabled (s : State) : Bool × State :=
  match s.currentTcb with
  | none => (false, s)
  | some p =>
    if s.isRunning p then
      (true, s.setTask p { s.heap p with state := .blocked, wakeupTick := 0, next := none })
    else (false, s)

def wakeBlockedTask (cfg : Config) (s : State) (task : Option TaskPtr) : Bool × State :=
  match task with
  | none => (false, s)
  | some p =>
    if (s.heap p).state = .blocked then
      let ready := s.setTask p { s.heap p with state := .ready, wakeupTick := 0, next := none }
      match enqueueOn cfg ready (selectCpuForTask cfg ready (ready.heap p)) p with
      | (true, s) => (true, s)
      | (false, s) => (false, s.setTask p { s.heap p with state := .blocked })
    else (false, s)

def timerTick (s : State) : State := { s with ticks := s.ticks + 1 }

/-- The context switch that the trap exit, or PendSV, performs. -/
def switchContext (s : State) : State := { s with currentTcb := s.nextTcb }

/-- `Scheduler::init`, with an empty task pool over uninitialised storage. -/
def init (cfg : Config) (uninit : Heap) : State where
  pool := Slab.new cfg.taskCap uninit
  cpuScheds _ := CpuScheduler.new
  taskIdCounter := 0
  sleepQueue := none
  currentTcb := none
  nextTcb := none
  ticks := 0

def createIdleTasks (cfg : Config) (idle : TaskArgs) : List ℕ → State → Option State
  | [], s => some s
  | cpu :: cpus, s =>
    match createTaskOnCpu cfg s { idle with priority := 0, name := "IDLE" } cpu with
    | none => none
    | some (id, s) =>
      createIdleTasks cfg idle cpus (s.setCpu cpu { s.cpuScheds cpu with idleTask := some id })

def initSystemTasks (cfg : Config) (idle root : TaskArgs) (s : State) : Option State :=
  match createIdleTasks cfg idle (List.range cfg.maxCpus) s with
  | none => none
  | some s =>
    match createTask cfg s { root with priority := 1, name := "ROOT" } with
    | none => none
    | some (_, s) => some s

end OpenIon.Sched
