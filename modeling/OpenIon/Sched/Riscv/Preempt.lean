import OpenIon.Sched.Riscv.Places

/-! # Preemption after a batch of wakeups

Inside one trap or critical section several tasks may become ready before the
next chance to switch. Every one of them overwrites the flag `preempt_pending`
with the verdict for itself, so the flag tells about the last of them only. A
batch that readies a high task and then a low one forgets the high one.
-/
namespace OpenIon.Sched

/-- `can_preempt_now`; whether a critical section is open is an input. -/
def canPreemptNow (s : State) (inCriticalSection : Bool) : Bool :=
  s.currentTcb.isSome && !inCriticalSection

/-- `yield_if_preempt_pending`; the yield traps into `schedule`. -/
def yieldIfPreemptPending (cfg : Config) (s : State) (inCriticalSection : Bool) : Bool × State :=
  if canPreemptNow s inCriticalSection && preemptPending cfg s then schedule cfg s else (false, s)

end OpenIon.Sched

namespace OpenIon.Sched.Riscv
open Lib

/-- The operations that make tasks ready without giving the processor away. -/
def Op.readies : Op → Bool
  | .createTask _ | .wake _ | .tickUpdate => true
  | _ => false

/-- The tasks that such an operation enqueues, in the order in which it does. -/
def readied (cfg : Config) (s : State) : Op → List TaskPtr
  | .createTask _ => s.pool.freeHead.toList
  | .wake (some p) => if (s.heap p).state = .blocked then [p] else []
  | .tickUpdate => dueTasks s (walk s.heap.next cfg.taskCap s.sleepQueue)
  | _ => []

def readiedBy (cfg : Config) : State → List Op → List TaskPtr
  | _, [] => []
  | s, op :: ops =>
    readied cfg s op ++ ((perform cfg s op).map fun s' => readiedBy cfg s' ops).getD []

/-- The outcome of a scheduling call is a switch to a highest-priority ready task. -/
def Preempts (s : State) (outcome : Bool × State) : Prop :=
  outcome.1 = true ∧ ∃ p, outcome.2.nextTcb = some p ∧ InReadyQueue s p ∧
    ∀ a, InReadyQueue s a → (s.heap a).priority ≤ (s.heap p).priority

/-- The last task that the batch enqueued ranks above `priority`; if the batch enqueued none,
the flag was set before it. -/
def LastReadiedAbove (cfg : Config) (s : State) (ops : List Op) (s' : State) (priority : ℕ) : Prop :=
  match (readiedBy cfg s ops).getLast? with
  | none => (s.cpuScheds 0).preemptPending = true
  | some p => priority < (s'.heap p).priority

variable {cfg : Config} {s s' : State} {run' : Option TaskPtr} {rq : ℕ → List TaskPtr}
  {sl fl : List TaskPtr} {p c : TaskPtr} {op : Op} {ops : List Op}

theorem Placed.perform_readies (h : Placed cfg s run' rq sl fl none) (hcpu : cfg.maxCpus = 1)
    (hop : Op.readies op = true) (hp : perform cfg s op = some s') :
    ∃ rq' sl' fl', Placed cfg s' run' rq' sl' fl' none ∧ EnqueuedAll s (readied cfg s op) s' := by
  cases op with
  | createTask args =>
    simp only [perform, Option.map_eq_some_iff] at hp
    rcases hp with ⟨⟨id, d⟩, hc, rfl⟩
    rcases h.createTaskOnCpu hcpu hc with ⟨p, rest, hfl, -, -, -, -, hd, he⟩
    refine ⟨_, _, _, hd, ?_⟩
    have hhead : s.pool.freeHead = some p := by rw [h.pool.chain.head_eq, hfl, List.head?_cons]
    rw [readied, hhead]
    exact .cons he (.nil _)
  | wake task =>
    simp only [perform, Option.ite_none_right_eq_some, Option.some.injEq] at hp
    rcases hp with ⟨htask, rfl⟩
    cases task with
    | none => exact ⟨_, _, _, h, .nil _⟩
    | some p =>
      by_cases hb : (s.heap p).state = .blocked
      · rcases h.wakeBlockedTask hcpu (by simpa using htask) hb with ⟨d, heq, hd, he⟩
        rw [heq, readied, if_pos hb]
        exact ⟨_, _, _, hd, .cons he (.nil _)⟩
      · rw [wakeBlockedTask_of_not_blocked hb, readied, if_neg hb]
        exact ⟨_, _, _, h, .nil _⟩
  | tickUpdate =>
    rcases h.tickUpdate hcpu with ⟨d, rq', heq, hd, hall⟩
    simp only [perform, heq, Option.some.injEq] at hp
    subst hp
    rw [readied, h.sleep.walk_eq h.sleep_length_le]
    exact ⟨_, _, _, hd, hall⟩
  | _ => simp [Op.readies] at hop

theorem Placed.run_readies (h : Placed cfg s run' rq sl fl none) (hcpu : cfg.maxCpus = 1)
    (hops : ∀ op ∈ ops, Op.readies op = true) (hrun : run (perform cfg) s ops = some s') :
    ∃ rq' sl' fl', Placed cfg s' run' rq' sl' fl' none ∧ EnqueuedAll s (readiedBy cfg s ops) s' := by
  induction ops generalizing s rq sl fl with
  | nil =>
    rw [← Option.some.inj hrun]
    exact ⟨_, _, _, h, .nil _⟩
  | cons op ops ih =>
    rcases run_cons_eq_some.mp hrun with ⟨m, hm, hrest⟩
    rcases Placed.perform_readies h hcpu (hops op List.mem_cons_self) hm with
      ⟨rq₁, sl₁, fl₁, h₁, hall₁⟩
    rcases ih h₁ (fun o ho => hops o (List.mem_cons_of_mem _ ho)) hrest with
      ⟨rq₂, sl₂, fl₂, h₂, hall₂⟩
    refine ⟨rq₂, sl₂, fl₂, h₂, ?_⟩
    rw [readiedBy, hm]
    exact hall₁.append hall₂

/-- After the batch the flag is set exactly if the last task of the batch ranks higher. -/
theorem EnqueuedAll.flag_iff (hall : EnqueuedAll s (readiedBy cfg s ops) s')
    (hcur : ∀ c, s.currentTcb = some c → s.IsTask c) (hc : s'.currentTcb = some c)
    (hr : (s'.heap c).state = .running) :
    (s'.cpuScheds 0).preemptPending = true ↔
      LastReadiedAbove cfg s ops s' (s'.heap c).priority := by
  have hc₀ : s.currentTcb = some c := by rw [← hall.currentTcb, hc]
  have htask := hcur c hc₀
  have hnot : c ∉ readiedBy cfg s ops := by
    intro hmem
    have hready := hall.ready c hmem
    simp [hr] at hready
  have hstate : (s.heap c).state = .running := by rw [← hall.frame.state htask hnot, hr]
  rw [hall.preemptPending hcur, LastReadiedAbove]
  cases (readiedBy cfg s ops).getLast? with
  | none => rfl
  | some p =>
    simp [checkPreemptNeeded, hc₀, State.isRunning, hstate, hall.frame.priority c htask]

section Decision

variable (h : Placed cfg s s.currentTcb rq sl fl none) (hcpu : cfg.maxCpus = 1)
  (hc : s.currentTcb = some c)
  (hhigh : ∃ a, InReadyQueue s a ∧ (s.heap c).priority < (s.heap a).priority)
include h hcpu hc hhigh

theorem Placed.schedule_preempts :
    Preempts s (scheduleCpuLocked cfg s 0) := by
  rcases hhigh with ⟨a, ha, hlt⟩
  rw [h.inReadyQueue_iff] at ha
  rcases h.scheduleCpuLocked hcpu with ⟨d, heq, hkeep, -, -⟩ | ⟨p, d, heq, hp, hmax, hd, -⟩
  · rcases hkeep with hnil | ⟨c', hc', -, hall⟩
    · simp [hnil] at ha
    · have hle := hall a ha
      rw [hc] at hc'
      rw [← Option.some.inj hc'] at hle
      omega
  · have hge := hmax a (h.mem_requeued.mpr (.inl ha))
    have hne : c ≠ p := by
      rintro rfl
      omega
    rw [heq]
    refine ⟨by simp [hc, hne], p, hd.nextTcb, ?_, ?_⟩
    · rw [h.inReadyQueue_iff]
      rcases h.mem_requeued.mp hp with hp | ⟨hcp, -⟩
      · exact hp
      · exact absurd (Option.some.inj (hc.symm.trans hcp)) hne
    · intro b hb
      exact hmax b (h.mem_requeued.mpr (.inl (h.inReadyQueue_iff.mp hb)))

theorem Placed.preemptPending_eq (hr : (s.heap c).state = .running) :
    preemptPending cfg s = (s.cpuScheds 0).preemptPending := by
  rcases hhigh with ⟨a, ha, hlt⟩
  rw [h.inReadyQueue_iff] at ha
  rcases h.takeReady (List.ne_nil_of_mem ha) with ⟨i, p, l, q, -, -, hmax, hpeek, -, -⟩
  have hle := hmax a ha
  have hempty : (s.cpuScheds 0).readyQueue.isEmpty = false := by
    have hne := List.ne_nil_of_mem ha
    simpa [← h.ready.isEmpty_iff] using hne
  have hlt' : (s.heap c).priority < i := by omega
  simp [preemptPending, currentSchedulerCpuId_single hcpu, hasHigherReadyThanCurrent, hc, hempty,
    State.isRunning, hr, hpeek, hlt']

end Decision

/-- After a batch that leaves a higher task ready, the next chance to preempt is taken exactly
if the task that the batch enqueued last ranks above the current one. -/
theorem preempts_iff_last_readied_above (cfg : Config) (hcpu : cfg.maxCpus = 1) (s : State)
    (hs : Reachable cfg s) (ops : List Op) (hops : ∀ op ∈ ops, Op.readies op = true) (s' : State)
    (hrun : run (perform cfg) s ops = some s') (c : TaskPtr) (hc : s'.currentTcb = some c)
    (hr : (s'.heap c).state = .running)
    (hhigh : ∃ a, InReadyQueue s' a ∧ (s'.heap c).priority < (s'.heap a).priority) :
    (Preempts s' (scheduleIfPreemptPending cfg s') ↔
      LastReadiedAbove cfg s ops s' (s'.heap c).priority) ∧
    (Preempts s' (yieldIfPreemptPending cfg s' false) ↔
      LastReadiedAbove cfg s ops s' (s'.heap c).priority) := by
  have hcpu0 := currentSchedulerCpuId_single hcpu
  rcases hs.allPlaced hcpu with ⟨rq, sl, fl, h⟩
  rcases Placed.run_readies h hcpu hops hrun with ⟨rq', sl', fl', h', hall⟩
  rw [← hall.currentTcb] at h'
  have hpre := Placed.schedule_preempts h' hcpu hc hhigh
  rw [← EnqueuedAll.flag_iff hall h.current_task hc hr,
    ← Placed.preemptPending_eq h' hcpu hc hhigh hr]
  by_cases hpend : preemptPending cfg s' = true
  · simp only [scheduleIfPreemptPending, yieldIfPreemptPending, canPreemptNow, hpend, hc, hcpu0,
      schedule, Option.isSome_some, Bool.not_false, Bool.and_self, if_true, hpre, and_self]
  · simp [scheduleIfPreemptPending, yieldIfPreemptPending, hpend, Preempts]

/-- Root runs at priority 1 while task 2 of priority 3 and task 3 of priority 1 are blocked. -/
def blockedPair : Option State :=
  system .small (.ofPriority 0) (.ofPriority 1) .blank
    [.schedule, .createTask (.ofPriority 3), .createTask (.ofPriority 1), .schedule, .block,
      .schedule, .block, .schedule]

/-- One interrupt wakes the high task and then the low one: the preemption is forgotten. -/
theorem preemption_forgotten :
    ∃ s s', blockedPair = some s ∧
      run (perform .small) s [.wake (some 2), .wake (some 3)] = some s' ∧
      s'.currentTcb = some 1 ∧ (s'.heap 1).state = .running ∧ InReadyQueue s' 2 ∧
      (s'.heap 1).priority < (s'.heap 2).priority ∧
      ¬ Preempts s' (scheduleIfPreemptPending .small s') ∧
      ¬ Preempts s' (yieldIfPreemptPending .small s' false) := by
  have htest : (blockedPair.bind fun s => run (perform .small) s [.wake (some 2), .wake (some 3)]).any
      (fun s' => decide (s'.currentTcb = some 1 ∧ (s'.heap 1).state = .running ∧
        ((s'.cpuScheds 0).readyQueue.queues 3).head = some 2 ∧
        (s'.heap 1).priority < (s'.heap 2).priority ∧
        (scheduleIfPreemptPending .small s').1 = false ∧
        (yieldIfPreemptPending .small s' false).1 = false)) = true := by
    decide +kernel
  rcases (Option.any_eq_true _ _).mp htest with ⟨s', hs', hfacts⟩
  rcases Option.bind_eq_some_iff.mp hs' with ⟨s, hs, hrun⟩
  rcases of_decide_eq_true hfacts with ⟨hc, hr, hq, hprio, hschedule, hyield⟩
  refine ⟨s, s', hs, hrun, hc, hr, ⟨3, by decide, [], hq⟩, hprio, ?_, ?_⟩
  · rintro ⟨hswitch, -⟩
    simp [hschedule] at hswitch
  · rintro ⟨hswitch, -⟩
    simp [hyield] at hswitch

theorem preemption_kept_high_last :
    ∃ s s', blockedPair = some s ∧
      run (perform .small) s [.wake (some 3), .wake (some 2)] = some s' ∧
      Preempts s' (scheduleIfPreemptPending .small s') ∧
      Preempts s' (yieldIfPreemptPending .small s' false) := by
  have htest : (blockedPair.bind fun s => (run (perform .small) s
      [.wake (some 3), .wake (some 2)]).map fun s' => (s, s')).any
      (fun r => decide (r.2.currentTcb = some 1 ∧ (r.2.heap 1).state = .running ∧
        ((r.2.cpuScheds 0).readyQueue.queues 3).head = some 2 ∧
        (r.2.heap 1).priority < (r.2.heap 2).priority ∧
        (readiedBy .small r.1 [.wake (some 3), .wake (some 2)]).getLast? = some 2)) = true := by
    decide +kernel
  rcases (Option.any_eq_true _ _).mp htest with ⟨r, hr, hfacts⟩
  rcases Option.bind_eq_some_iff.mp hr with ⟨s, hs, hmap⟩
  rcases Option.map_eq_some_iff.mp hmap with ⟨s', hrun, rfl⟩
  rcases of_decide_eq_true hfacts with ⟨hc, hr, hq, hprio, hlast⟩
  have habove : LastReadiedAbove .small s [.wake (some 3), .wake (some 2)] s'
      (s'.heap 1).priority := by
    rw [LastReadiedAbove, hlast]
    exact hprio
  have hiff := preempts_iff_last_readied_above .small rfl s ⟨_, _, _, _, hs⟩
    [.wake (some 3), .wake (some 2)] (by simp [Op.readies]) s' hrun 1 hc hr
    ⟨2, ⟨3, by decide, [], hq⟩, hprio⟩
  exact ⟨s, s', hs, hrun, hiff.1.mpr habove, hiff.2.mpr habove⟩

end OpenIon.Sched.Riscv
