import OpenIon.Sched.Placement.Current
import OpenIon.Sched.Placement.Tick
import OpenIon.Lib.Run

/-! # Sections of the scheduler as atomic operations

Every entry point of the scheduler works with interrupts disabled, so a run of
the system is a sequence of such sections, issued by the current task or by
interrupts. `perform` is one section. What follows a scheduling decision differs
between the architectures and is added by their own step functions.
-/
namespace OpenIon.Sched
open Lib

inductive Op where
  | createTask (args : TaskArgs)
  | delay (ticks : UInt32)
  | block
  | wake (task : Option TaskPtr)
  | tick
  | tickUpdate
  | schedule
  | scheduleIfPreemptPending
  | terminate

namespace Op

def decides : Op → Bool
  | schedule | scheduleIfPreemptPending | terminate => true
  | _ => false

def stops : Op → Bool
  | delay _ | block | terminate => true
  | _ => false

end Op

/-- One section. A task can only stop itself while it runs, and the pointers passed to
`wake_blocked_task` are null or those of tasks. -/
def perform (cfg : Config) (s : State) : Op → Option State
  | .createTask args => (createTask cfg s args).map Prod.snd
  | .delay ticks => if s.currentRunning then some (delay s ticks).2 else none
  | .block => if s.currentRunning then some (blockCurrentTaskIrqDisabled s).2 else none
  | .wake task => if task.all (s.IsTask ·) then some (wakeBlockedTask cfg s task).2 else none
  | .tick => some (timerTick s)
  | .tickUpdate => tickUpdate cfg s
  | .schedule => some (schedule cfg s).2
  | .scheduleIfPreemptPending => some (scheduleIfPreemptPending cfg s).2
  | .terminate => if s.currentRunning then some (terminateCurrent cfg s).2 else none

/-- The task is met when the links of the ready queue are followed. -/
def InReadyQueue (s : State) (a : TaskPtr) : Prop :=
  ∃ i < maxPriorities, Linked s.heap.next ((s.cpuScheds 0).readyQueue.queues i).head a

/-- What a section does to the tasks, whichever it is. -/
structure Performed (op : Op) (s s' : State) : Prop extends Frame s s' Set.univ where
  currentTcb : s'.currentTcb = s.currentTcb
  nextTcb : op.decides = false → s'.nextTcb = s.nextTcb
  runnable : ∀ a ∈ s.runnable, s.IsTask a → (op.stops = true → s.currentTcb ≠ some a) →
    a ∈ s'.runnable
  running : ∀ a, s.IsTask a → (s.heap a).state = .running → op.decides = false →
    (op.stops = true → s.currentTcb ≠ some a) → (s'.heap a).state = .running
  blocked : ∀ a, s.IsTask a → (s.heap a).state = .blocked → op ≠ .wake (some a) →
    (s'.heap a).state = .blocked
  sleeping : ∀ a, s.IsTask a → (s.heap a).state = .sleeping → op ≠ .tickUpdate →
    s'.heap a = { s.heap a with next := (s'.heap a).next }
  ticks : op ≠ .tick → s'.ticks = s.ticks

variable {cfg : Config} {s s' m : State} {run : Option TaskPtr} {rq : ℕ → List TaskPtr}
  {sl fl : List TaskPtr} {p c : TaskPtr} {op : Op}

theorem Placed.inReadyQueue_iff {out : Option TaskPtr} (h : Placed cfg s run rq sl fl out)
    {a : TaskPtr} : InReadyQueue s a ↔ a ∈ members rq := by
  rw [mem_members]
  apply exists_congr
  intro i
  apply and_congr_right
  intro hi
  exact (h.ready.chain i hi).linked_iff

theorem Enqueued.mem_runnable (he : Enqueued s s' p) {a : TaskPtr} (ha : a ∈ s.runnable)
    (hta : s.IsTask a) : a ∈ s'.runnable := by
  by_cases hap : a = p
  · exact .inl (hap ▸ he.ready)
  · change (s'.heap a).state = .ready ∨ (s'.heap a).state = .running
    rw [he.state hta hap]
    exact ha

theorem EnqueuedAll.mem_runnable {ps : List TaskPtr} (h : EnqueuedAll s ps s') {a : TaskPtr}
    (ha : a ∈ s.runnable) (hta : s.IsTask a) : a ∈ s'.runnable := by
  induction h with
  | nil s => exact ha
  | cons he _ ih => exact ih (he.mem_runnable ha hta) (he.task a hta)

theorem EnqueuedAll.running {ps : List TaskPtr} (h : EnqueuedAll s ps s') {a : TaskPtr}
    (hta : s.IsTask a) (hr : (s.heap a).state = .running) : (s'.heap a).state = .running := by
  induction h with
  | nil s => exact hr
  | @cons s m s' p ps he _ ih =>
    have hap : a ≠ p := by
      rintro rfl
      exact he.idle hta hr
    apply ih (he.task a hta)
    rw [he.state hta hap, hr]

/-- A section that enqueues tasks, none of them blocked unless it is the one to be woken, and none
of them asleep unless it wakes the sleepers. -/
theorem Performed.of_enqueuedAll {ps : List TaskPtr} (h : EnqueuedAll s ps s')
    (hps : ∀ a ∈ ps, s.IsTask a → (s.heap a).state = .blocked → op = .wake (some a))
    (hsl : ∀ a ∈ ps, s.IsTask a → (s.heap a).state = .sleeping → op = .tickUpdate) :
    Performed op s s' where
  toFrame := h.frame.mono (Set.subset_univ _)
  currentTcb := h.currentTcb
  nextTcb _ := h.nextTcb
  runnable a ha hta _ := h.mem_runnable ha hta
  running a hta hr _ _ := h.running hta hr
  blocked a hta hb hop := by
    rw [h.frame.state hta (fun ha => hop (hps a ha hta hb)), hb]
  sleeping a hta hs hop := h.frame.other a hta fun ha => hop (hsl a ha hta hs)
  ticks _ := h.ticks

/-- A section in which the current task stops itself. -/
theorem Performed.of_stop (hf : Frame s s' {c}) (hcur : s.currentTcb = some c)
    (hr : (s.heap c).state = .running) (hstop : op.stops = true)
    (hcur' : s'.currentTcb = s.currentTcb) (hnext : s'.nextTcb = s.nextTcb)
    (hticks : s'.ticks = s.ticks) : Performed op s s' where
  toFrame := hf.mono (Set.subset_univ _)
  currentTcb := hcur'
  nextTcb _ := hnext
  runnable a ha hta hne := by
    have hac : a ≠ c := by
      rintro rfl
      exact hne hstop hcur
    change (s'.heap a).state = .ready ∨ (s'.heap a).state = .running
    rw [hf.state hta hac]
    exact ha
  running a hta hra _ hne := by
    have hac : a ≠ c := by
      rintro rfl
      exact hne hstop hcur
    rw [hf.state hta hac, hra]
  blocked a hta hb _ := by
    have hac : a ≠ c := by
      rintro rfl
      simp [hr] at hb
    rw [hf.state hta hac, hb]
  sleeping a hta hs _ := by
    refine hf.other a hta ?_
    rintro rfl
    simp [hr] at hs
  ticks _ := hticks

theorem Performed.of_pool_eq (hpool : s'.pool = s.pool)
    (hidle : (s'.cpuScheds 0).idleTask = (s.cpuScheds 0).idleTask)
    (hcur : s'.currentTcb = s.currentTcb)
    (hnext : op.decides = false → s'.nextTcb = s.nextTcb)
    (hticks : op ≠ .tick → s'.ticks = s.ticks) : Performed op s s' := by
  have hheap : s'.heap = s.heap := by rw [State.heap, State.heap, hpool]
  refine ⟨Frame.of_heap_eq hpool hidle, hcur, hnext, ?_, ?_, ?_, ?_, hticks⟩
  · intro a ha _ _
    rwa [State.runnable, hheap]
  · intro a _ hr _ _
    rwa [hheap]
  · intro a _ hb _
    rwa [hheap]
  · intro a _ _ _
    rw [hheap]

theorem Performed.of_kept (h : Kept s s') (hop : op.decides = true) : Performed op s s' :=
  .of_pool_eq h.pool h.idleTask h.currentTcb (by simp [hop]) fun _ => h.ticks

theorem Performed.of_dispatched (h : Dispatched s s' p) (hop : op.decides = true) :
    Performed op s s' where
  toFrame := h.toFrame.mono (Set.subset_univ _)
  currentTcb := h.currentTcb
  nextTcb hd := by simp [hop] at hd
  runnable a ha hta _ := h.runnable a ha hta
  running a hta hr hd _ := by simp [hop] at hd
  blocked a hta hb _ := by
    have hnot : a ∉ s.runnable := by
      rintro (hr | hr)
      · simp [hb] at hr
      · simp [hb] at hr
    rw [h.state hta hnot, hb]
  sleeping a hta hs _ := by
    refine h.other a hta ?_
    rintro (hr | hr)
    · simp [hs] at hr
    · simp [hs] at hr
  ticks _ := h.ticks

theorem Performed.trans (h : Performed op s m) (h' : Performed op m s') : Performed op s s' where
  toFrame := h.toFrame.trans h'.toFrame
  currentTcb := h'.currentTcb.trans h.currentTcb
  nextTcb hd := (h'.nextTcb hd).trans (h.nextTcb hd)
  runnable a ha hta hne :=
    h'.runnable a (h.runnable a ha hta hne) (h.task a hta) (h.currentTcb ▸ hne)
  running a hta hr hd hne :=
    h'.running a (h.task a hta) (h.running a hta hr hd hne) hd (h.currentTcb ▸ hne)
  blocked a hta hb hop := h'.blocked a (h.task a hta) (h.blocked a hta hb hop) hop
  sleeping a hta hs hop := by
    have hsame := h.sleeping a hta hs hop
    have hs' : (m.heap a).state = .sleeping := by rw [hsame, hs]
    rw [h'.sleeping a (h.task a hta) hs' hop, hsame]
  ticks hop := (h'.ticks hop).trans (h.ticks hop)

/-- A decision leaves every task in its place, with `NEXT_TCB` as the task that runs. -/
theorem Placed.decision (h : Placed cfg s s.currentTcb rq sl fl none) (hcpu : cfg.maxCpus = 1)
    (op : Op) (hop : op.decides = true) (hs' : (Sched.scheduleCpuLocked cfg s 0).2 = s') :
    ∃ rq', Placed cfg s' s'.nextTcb rq' sl fl none ∧ Performed op s s' := by
  rcases h.scheduleCpuLocked hcpu with ⟨d, heq, -, hk, hd⟩ | ⟨p, d, heq, -, -, hp, hd⟩
  · rw [heq] at hs'
    subst hs'
    exact ⟨rq, hd, .of_kept hk hop⟩
  · rw [heq] at hs'
    subst hs'
    exact ⟨hd.choose, hd.choose_spec, .of_dispatched hp hop⟩

/-- Every section leaves every task in its place. -/
theorem Placed.perform (h : Placed cfg s run rq sl fl none) (hcpu : cfg.maxCpus = 1)
    (hrun : op.decides = true → run = s.currentTcb) (hp : Sched.perform cfg s op = some s') :
    ∃ rq' sl' fl', Placed cfg s' (if op.decides then s'.nextTcb else run) rq' sl' fl' none ∧
      Performed op s s' := by
  have hcpu0 := currentSchedulerCpuId_single hcpu
  cases op with
  | createTask args =>
    simp only [Sched.perform, Option.map_eq_some_iff] at hp
    rcases hp with ⟨⟨id, d⟩, hc, rfl⟩
    rcases h.createTaskOnCpu hcpu hc with ⟨p, rest, -, hnot, -, -, -, hd, he⟩
    have hnew : ∀ a ∈ [p], ¬ s.IsTask a := fun a ha => List.mem_singleton.mp ha ▸ hnot
    exact ⟨_, _, _, hd, .of_enqueuedAll (.cons he (.nil _))
      (fun a ha hta => absurd hta (hnew a ha)) fun a ha hta => absurd hta (hnew a ha)⟩
  | delay ticks =>
    simp only [Sched.perform, Option.ite_none_right_eq_some, Option.some.injEq] at hp
    rcases hp with ⟨hc, rfl⟩
    rcases State.currentRunning_iff.mp hc with ⟨c, hcur, hr⟩
    rcases h.delay hcur hr ticks with ⟨hd, hf, -, hcur', hnext⟩
    have hticks : (Sched.delay s ticks).2.ticks = s.ticks := by simp [Sched.delay, hcur]; rfl
    exact ⟨_, _, _, hd, .of_stop hf hcur hr rfl hcur' hnext hticks⟩
  | block =>
    simp only [Sched.perform, Option.ite_none_right_eq_some, Option.some.injEq] at hp
    rcases hp with ⟨hc, rfl⟩
    rcases State.currentRunning_iff.mp hc with ⟨c, hcur, hr⟩
    rcases h.blockCurrentTaskIrqDisabled hcur hr with ⟨d, heq, hd, hf, -, hcur', hnext⟩
    have hticks : (Sched.blockCurrentTaskIrqDisabled s).2.ticks = s.ticks := by
      simp [Sched.blockCurrentTaskIrqDisabled, hcur, State.isRunning, hr]; rfl
    rw [heq] at hticks ⊢
    exact ⟨_, _, _, hd, .of_stop hf hcur hr rfl hcur' hnext hticks⟩
  | wake task =>
    simp only [Sched.perform, Option.ite_none_right_eq_some, Option.some.injEq] at hp
    rcases hp with ⟨htask, rfl⟩
    cases task with
    | none => exact ⟨_, _, _, h, .of_pool_eq rfl rfl rfl (fun _ => rfl) fun _ => rfl⟩
    | some p =>
      have hp : s.IsTask p := by simpa using htask
      by_cases hb : (s.heap p).state = .blocked
      · rcases h.wakeBlockedTask hcpu hp hb with ⟨d, heq, hd, he⟩
        rw [heq]
        refine ⟨_, _, _, hd, .of_enqueuedAll (.cons he (.nil _)) ?_ ?_⟩
        · intro a ha _ _
          rw [List.mem_singleton.mp ha]
        · intro a ha _ hs
          rw [List.mem_singleton.mp ha, hb] at hs
          cases hs
      · rw [wakeBlockedTask_of_not_blocked hb]
        exact ⟨_, _, _, h, .of_pool_eq rfl rfl rfl (fun _ => rfl) fun _ => rfl⟩
  | tick =>
    simp only [Sched.perform, Option.some.injEq] at hp
    subst hp
    exact ⟨_, _, _, h.of_eq rfl rfl rfl rfl h.current_task h.next_task,
      .of_pool_eq rfl rfl rfl (fun _ => rfl) fun hop => absurd rfl hop⟩
  | tickUpdate =>
    rcases h.tickUpdate hcpu with ⟨d, rq', heq, hd, hall⟩
    simp only [Sched.perform, heq, Option.some.injEq] at hp
    subst hp
    refine ⟨_, _, _, hd, .of_enqueuedAll hall ?_ fun _ _ _ _ => rfl⟩
    intro a ha _ hb
    have hsl := (h.sleep_mem a (List.mem_of_mem_filter ha)).2.1
    simp [hb] at hsl
  | schedule =>
    simp only [Sched.perform, Sched.schedule, hcpu0, Option.some.injEq] at hp
    rw [hrun rfl] at h
    rcases h.decision hcpu .schedule rfl hp with ⟨rq', hd, hperf⟩
    exact ⟨_, _, _, hd, hperf⟩
  | scheduleIfPreemptPending =>
    simp only [Sched.perform, Sched.scheduleIfPreemptPending, hcpu0, Option.some.injEq] at hp
    rw [hrun rfl] at h
    split at hp
    · rcases h.decision hcpu .scheduleIfPreemptPending rfl hp with ⟨rq', hd, hperf⟩
      exact ⟨_, _, _, hd, hperf⟩
    · subst hp
      exact ⟨_, _, _, h.kept kept_of_no_preemption, .of_kept kept_of_no_preemption rfl⟩
  | terminate =>
    simp only [Sched.perform, Option.ite_none_right_eq_some, Option.some.injEq] at hp
    rcases hp with ⟨hc, hp⟩
    rcases State.currentRunning_iff.mp hc with ⟨c, hcur, hr⟩
    rcases h.terminateCurrent hcur hr hcpu with ⟨m, heq, hm, hf, -, hcur', hnext, hticks⟩
    rw [heq] at hp
    rcases hm.decision hcpu .terminate rfl hp with ⟨rq', hd, hperf⟩
    exact ⟨_, _, _, hd, (Performed.of_stop hf hcur hr rfl hcur' hnext hticks).trans hperf⟩

/-- The idle task of CPU 0 is ready or running. -/
def IdleRunnable (s : State) : Prop :=
  ∃ i ∈ s.runnable, s.IsTask i ∧ (s.cpuScheds 0).idleTask = some (s.heap i).id

def State.currentNotIdle (s : State) : Bool :=
  s.currentTcb.all fun c => (s.cpuScheds 0).idleTask != some (s.heap c).id

/-- The idle task stays runnable as long as it does not stop itself. -/
theorem IdleRunnable.perform (h : IdleRunnable s) (hp : Performed op s s')
    (hidle : op.stops = true → s.currentNotIdle = true) : IdleRunnable s' := by
  rcases h with ⟨i, hi, htask, hid⟩
  refine ⟨i, hp.runnable i hi htask ?_, hp.task i htask, ?_⟩
  · intro hstop hcur
    have hnot := hidle hstop
    simp [State.currentNotIdle, hcur, hid] at hnot
  · rw [hp.idleTask, hid, hp.id i htask]

/-- With the idle task runnable the queue is never empty under a stopped current task. -/
theorem IdleRunnable.members_ne_nil (hi : IdleRunnable s)
    (h : Placed cfg s s.currentTcb rq sl fl none) (hstop : s.currentRunning = false) :
    members rq ≠ [] := by
  rcases hi with ⟨i, hi, htask, -⟩
  have hplace := h.inPlace htask
  rcases hi with hr | hr
  · rw [Place, hr] at hplace
    exact List.ne_nil_of_mem hplace
  · rw [Place, hr] at hplace
    have hrun := State.currentRunning_iff.mpr ⟨i, hplace.1, hr⟩
    simp [hstop] at hrun

theorem init_placed (cfg : Config) (uninit : Heap) :
    Placed cfg (init cfg uninit) none (fun _ => []) [] (List.range' 0 cfg.taskCap) none := by
  have hmem : members (fun _ => []) = [] := by simp [members]
  have hdead : ∀ p, ¬ (init cfg uninit).IsTask p := by
    intro p
    simp [State.IsTask, init, Mm.Slab.new]
  constructor
  · exact Mm.Slab.new_wf cfg.taskCap uninit
  · exact ReadyQueue.new_wf _
  · exact rfl
  · simp [hmem]
  · simp
  · intro p hp
    exact absurd hp (hdead p)
  · simp
  · intro p hp
    exact absurd hp (hdead p)
  · simp [init]
  · rintro p ⟨⟩
  · rintro p ⟨⟩

/-- After `init_system_tasks` every task is in its place, nobody runs yet, and the idle task
is ready. -/
theorem initSystemTasks_placed (hcpu : cfg.maxCpus = 1) {idle root : TaskArgs} {uninit : Heap}
    (h : initSystemTasks cfg idle root (init cfg uninit) = some s) :
    ∃ rq fl, Placed cfg s none rq [] fl none ∧ IdleRunnable s ∧ s.currentTcb = none ∧
      s.nextTcb = none := by
  have hinit := init_placed cfg uninit
  simp only [initSystemTasks, hcpu, List.range_one, createIdleTasks] at h
  split at h
  · simp at h
  rename_i b hb
  split at hb
  · simp at hb
  rename_i id d hd
  rcases hinit.createTaskOnCpu hcpu hd with ⟨i, rest, -, -, -, hid, -, hplaced, he⟩
  have hbd : d.setCpu 0 { d.cpuScheds 0 with idleTask := some id } = b := Option.some.inj hb
  have hb : Placed cfg b none (pushed d.heap (fun _ => []) i) [] rest none := by
    rw [← hbd]
    refine hplaced.of_eq rfl ?_ rfl rfl hplaced.current_task hplaced.next_task
    simp [State.setCpu]
  have hidle : IdleRunnable b := by
    rw [← hbd]
    refine ⟨i, .inl he.ready, he.isTask, ?_⟩
    simp [State.setCpu, State.heap] at hid ⊢
    exact hid.symm
  split at h
  · simp at h
  rename_i rid r hr
  rw [← Option.some.inj h]
  rcases hb.createTaskOnCpu hcpu hr with ⟨p, rest', -, hnot, -, -, -, hplaced', he'⟩
  have hperf : Performed (.createTask root) b r := by
    have hnew : ∀ a ∈ [p], ¬ b.IsTask a := fun a ha => List.mem_singleton.mp ha ▸ hnot
    exact .of_enqueuedAll (.cons he' (.nil _)) (fun a ha hta => absurd hta (hnew a ha))
      fun a ha hta => absurd hta (hnew a ha)
  refine ⟨_, _, hplaced', hidle.perform hperf (by rintro ⟨⟩), ?_, ?_⟩
  · rw [he'.currentTcb, ← hbd]
    exact he.currentTcb
  · rw [he'.nextTcb, ← hbd]
    exact he.nextTcb

/-- One CPU and four control blocks, the smallest build used in the sample runs. -/
def Config.small : Config where
  taskCap := 4
  taskCap_lt := by decide
  maxCpus := 1
  maxCpus_pos := by decide
  usizeBits := 32
  cpuId := 0
  activeMask := 1

def TaskArgs.ofPriority (priority : ℕ) : TaskArgs := ⟨0, 0, 0, priority, ""⟩

def Heap.blank : Heap := fun _ => TaskControlBlock.new 0 0 0 0 0 ""

end OpenIon.Sched
