import OpenIon.Sched.Riscv.Places

/-! # Only runnable tasks are selected

`schedule_cpu_locked` falls back to the current task, whatever its state, when
nothing is ready. This is harmless because the idle task never stops itself: in
every reachable state it is ready or running, so a decision always finds a task.
-/
namespace OpenIon.Sched.Riscv
open Lib

/-- The idle task does not call the operations with which a task stops itself. -/
def IdleStays (s : State) (op : Op) : Prop := op.stops = true → s.currentNotIdle = true

/-- The state in which an operation runs `schedule_cpu_locked`, if it does. -/
def decisionState (cfg : Config) (s : State) : Op → Option State
  | .schedule => some s
  | .scheduleIfPreemptPending => if preemptPending cfg s then some s else none
  | .terminate =>
    match s.currentTcb with
    | none => none
    | some c =>
      if s.isRunning c then some (s.setTask c { s.heap c with state := .terminated, next := none })
      else none
  | _ => none

variable {cfg : Config} {s s' m : State} {rq : ℕ → List TaskPtr} {sl fl : List TaskPtr}
  {p : TaskPtr} {op : Op}

theorem perform_of_decisionState (hcpu : cfg.maxCpus = 1) (hm : decisionState cfg s op = some m) :
    perform cfg s op = some (scheduleCpuLocked cfg m 0).2 := by
  have hcpu0 := currentSchedulerCpuId_single hcpu
  cases op with
  | schedule =>
    rw [← Option.some.inj hm, perform, schedule, hcpu0]
  | scheduleIfPreemptPending =>
    simp only [decisionState, Option.ite_none_right_eq_some, Option.some.injEq] at hm
    rcases hm with ⟨hp, rfl⟩
    simp only [perform, scheduleIfPreemptPending, hp, if_true, hcpu0]
  | terminate =>
    cases hc : s.currentTcb with
    | none => simp [decisionState, hc] at hm
    | some c =>
      simp only [decisionState, hc, Option.ite_none_right_eq_some, Option.some.injEq] at hm
      rcases hm with ⟨hr, rfl⟩
      simp only [perform, State.currentRunning, hc, Option.any_some, hr, if_true,
        terminateCurrent, hcpu0]
  | _ => simp [decisionState] at hm

def IdlePlaced (cfg : Config) (s : State) : Prop := AllPlaced cfg s ∧ IdleRunnable s

theorem IdlePlaced.step (h : IdlePlaced cfg s) (hcpu : cfg.maxCpus = 1) (hidle : IdleStays s op)
    (hstep : step cfg s op = some s') : IdlePlaced cfg s' := by
  rcases h.1.step hcpu hstep with ⟨hplaced, m, -, hperf, rfl⟩
  have hm := h.2.perform hperf hidle
  refine ⟨hplaced, ?_⟩
  split
  · exact hm
  · exact hm

theorem IdlePlaced.decisionState (h : IdlePlaced cfg s) (hidle : IdleStays s op)
    (hm : decisionState cfg s op = some m) : IdlePlaced cfg m := by
  cases op with
  | schedule => exact Option.some.inj hm ▸ h
  | scheduleIfPreemptPending =>
    simp only [Riscv.decisionState, Option.ite_none_right_eq_some, Option.some.injEq] at hm
    exact hm.2 ▸ h
  | terminate =>
    cases hc : s.currentTcb with
    | none => simp [Riscv.decisionState, hc] at hm
    | some c =>
      simp only [Riscv.decisionState, hc, Option.ite_none_right_eq_some, Option.some.injEq,
        State.isRunning, decide_eq_true_eq] at hm
      rcases hm with ⟨hr, rfl⟩
      rcases h with ⟨⟨rq, sl, fl, h⟩, hi⟩
      refine ⟨⟨rq, sl, fl, h.stopRunning hc hr rfl rfl (.inr rfl)⟩, ?_⟩
      have hf : Frame s (s.setTask c { s.heap c with state := .terminated, next := none }) {c} :=
        Frame.setTask rfl rfl
      have hperf : Performed .terminate s _ := Performed.of_stop hf hc hr rfl rfl rfl rfl
      exact hi.perform hperf hidle
  | _ => simp [Riscv.decisionState] at hm

theorem IdlePlaced.selects_running (h : IdlePlaced cfg m) (hcpu : cfg.maxCpus = 1) :
    ∃ p ∈ m.runnable, (scheduleCpuLocked cfg m 0).2.nextTcb = some p ∧
      ((scheduleCpuLocked cfg m 0).2.heap p).state = .running := by
  rcases h with ⟨⟨rq, sl, fl, h⟩, hi⟩
  rcases h.scheduleCpuLocked hcpu with ⟨d, heq, hkeep, hk, -⟩ | ⟨p, d, heq, hp, -, hd, -⟩
  · -- the current task is kept, so it runs: an empty queue leaves only it for the idle task
    have hrun : m.currentRunning = true := by
      rcases hkeep with hnil | ⟨c, hc, hr, -⟩
      · by_contra hstop
        exact hi.members_ne_nil h (by simpa using hstop) hnil
      · exact State.currentRunning_iff.mpr ⟨c, hc, hr⟩
    rcases State.currentRunning_iff.mp hrun with ⟨c, hc, hr⟩
    refine ⟨c, .inr hr, ?_, ?_⟩
    · rw [heq, hk.nextTcb, hc]
    · rw [heq, hk.frame.state (h.current_task c hc) (Set.notMem_empty c), hr]
  · refine ⟨p, ?_, ?_, ?_⟩
    · rcases h.mem_requeued.mp hp with hp | ⟨-, hr⟩
      · exact .inl (h.ready_mem p hp).2.1
      · exact .inr hr
    · rw [heq, hd.nextTcb]
    · rw [heq, hd.running]

/-- Whenever `schedule_cpu_locked` runs in a reachable state, it selects a task that was ready
or running and makes it running. In particular it never finds the queue empty while the current
task is sleeping, blocked or terminated. -/
theorem decision_selects_running (cfg : Config) (hcpu : cfg.maxCpus = 1) (idle root : TaskArgs)
    (uninit : Heap) (s₀ : State) (h₀ : initSystemTasks cfg idle root (init cfg uninit) = some s₀)
    (ops : List Op) (hops : Along (step cfg) IdleStays s₀ ops) (s : State)
    (hs : run (step cfg) s₀ ops = some s) (op : Op) (hop : IdleStays s op) (m : State)
    (hm : decisionState cfg s op = some m) :
    perform cfg s op = some (scheduleCpuLocked cfg m 0).2 ∧
      (∃ p ∈ m.runnable, (scheduleCpuLocked cfg m 0).2.nextTcb = some p ∧
        ((scheduleCpuLocked cfg m 0).2.heap p).state = .running) ∧
      (m.currentRunning = false → (m.cpuScheds 0).readyQueue.isEmpty = false) := by
  have hstart : IdlePlaced cfg s₀ := by
    rcases initSystemTasks_placed hcpu h₀ with ⟨rq, fl, h, hi, hcur, -⟩
    exact ⟨⟨rq, [], fl, hcur ▸ h⟩, hi⟩
  have hinv : IdlePlaced cfg s := by
    apply Always.last _ hs
    apply hops.always _ hstart
    intro s op s' h hidle hstep
    exact h.step hcpu hidle hstep
  have hmid := hinv.decisionState hop hm
  refine ⟨perform_of_decisionState hcpu hm, hmid.selects_running hcpu, ?_⟩
  intro hstop
  rcases hmid with ⟨⟨rq, sl, fl, h⟩, hi⟩
  have hne := hi.members_ne_nil h hstop
  simpa [← h.ready.isEmpty_iff] using hne

theorem root_terminates_selects_running :
    ∃ s₀ s m, initSystemTasks .small (.ofPriority 0) (.ofPriority 1) (init .small .blank) = some s₀ ∧
      run (step .small) s₀ [.schedule] = some s ∧ decisionState .small s .terminate = some m ∧
      ∃ p ∈ m.runnable, (scheduleCpuLocked .small m 0).2.nextTcb = some p ∧
        ((scheduleCpuLocked .small m 0).2.heap p).state = .running := by
  let boot := initSystemTasks .small (.ofPriority 0) (.ofPriority 1) (init .small .blank)
  let s₀ := boot.get (by decide)
  let s := (run (step .small) s₀ [.schedule]).get (by decide)
  let m := (decisionState .small s .terminate).get (by decide)
  have h₀ : boot = some s₀ := (Option.some_get _).symm
  have hs : run (step .small) s₀ [.schedule] = some s := (Option.some_get _).symm
  have hm : decisionState .small s .terminate = some m := (Option.some_get _).symm
  have hops : Along (step .small) IdleStays s₀ [.schedule] := fun _ _ => ⟨(by rintro ⟨⟩), trivial⟩
  have hop : IdleStays s .terminate := fun _ => by decide
  exact ⟨s₀, s, m, h₀, hs, hm,
    (decision_selects_running .small rfl _ _ _ s₀ h₀ _ hops s hs .terminate hop m hm).2.1⟩

end OpenIon.Sched.Riscv
