import OpenIon.Sched.Machine

/-! # The deferred switch on Cortex-M

On Cortex-M a decision only stores `NEXT_TCB` and asks for a PendSV exception;
`CURRENT_TCB` changes when PendSV runs. Until then interrupts may take further
decisions. Such a second decision treats the old current task as stopped and
overwrites `NEXT_TCB`, so the task chosen first is running nowhere and in no
list: it is lost.
-/
namespace OpenIon.Sched.CortexM
open Lib

structure Core where
  sched : State
  pendsv : Bool

inductive Act where
  | op (op : Op)
  | pendsv

/-- A decision returned `true`, upon which its caller asks for a PendSV. -/
def asksSwitch (cfg : Config) (s : State) : Op → Bool
  | .schedule => (schedule cfg s).1
  | .scheduleIfPreemptPending => (scheduleIfPreemptPending cfg s).1
  | .terminate => (terminateCurrent cfg s).1
  | _ => false

def pendsvHandler (s : State) : State := if s.nextTcb.isNone then s else switchContext s

def step (cfg : Config) (c : Core) : Act → Option Core
  | .op op => (perform cfg c.sched op).map fun s => ⟨s, c.pendsv || asksSwitch cfg c.sched op⟩
  | .pendsv => if c.pendsv then some ⟨pendsvHandler c.sched, false⟩ else none

/-- `init_system_tasks`, the first decision and `start_first_task`. -/
def boot (cfg : Config) (idle root : TaskArgs) (uninit : Heap) : Option Core :=
  (initSystemTasks cfg idle root (init cfg uninit)).map fun s =>
    ⟨switchContext (schedule cfg s).2, false⟩

/-- Every task that could run is the current one, the next one, or in the ready queue, and the
task that PendSV is about to resume is not in the ready queue as well. -/
structure NoTaskLost (c : Core) : Prop where
  found : ∀ p, c.sched.IsTask p → (c.sched.heap p).state ≠ .terminated →
    (c.sched.heap p).state ≠ .blocked → (c.sched.heap p).state ≠ .sleeping →
    c.sched.currentTcb = some p ∨ c.sched.nextTcb = some p ∨ InReadyQueue c.sched p
  resumed : c.pendsv = true → ∀ p, c.sched.nextTcb = some p → ¬ InReadyQueue c.sched p

/-- No decision is taken while the previous one has not been carried out. -/
def DecidesSettled (c : Core) : Act → Prop
  | .op op => op.decides = true → c.sched.nextTcb = c.sched.currentTcb
  | .pendsv => True

instance (c : Core) : (act : Act) → Decidable (DecidesSettled c act)
  | .op op => inferInstanceAs
      (Decidable (op.decides = true → c.sched.nextTcb = c.sched.currentTcb))
  | .pendsv => isTrue trivial

variable {cfg : Config} {s s' : State} {c c' : Core} {rq : ℕ → List TaskPtr}
  {sl fl : List TaskPtr} {p : TaskPtr} {op : Op} {act : Act}

structure Consistent (cfg : Config) (c : Core) : Prop where
  placed : ∃ rq sl fl, Placed cfg c.sched c.sched.nextTcb rq sl fl none
  pending : c.pendsv = true ↔ c.sched.nextTcb ≠ c.sched.currentTcb
  running : c.pendsv = true →
    ∃ p, c.sched.nextTcb = some p ∧ (c.sched.heap p).state = .running

theorem Consistent.noTaskLost (h : Consistent cfg c) : NoTaskLost c := by
  rcases h.placed with ⟨rq, sl, fl, hp⟩
  constructor
  · intro p htask hterm hblock hsleep
    have hplace := hp.inPlace htask
    unfold Place at hplace
    split at hplace
    case h_1 => exact .inr (.inr (hp.inReadyQueue_iff.mpr hplace))
    case h_2 => exact .inr (.inl hplace.1)
    case h_3 hs => exact absurd hs hsleep
    case h_4 hs => exact absurd hs hblock
    case h_5 hs => exact absurd hs hterm
    case h_6 => exact hplace.elim
  · intro hpend p hnext hmem
    rcases h.running hpend with ⟨q, hq, hr⟩
    have hready := (hp.ready_mem p (hp.inReadyQueue_iff.mp hmem)).2.1
    rw [hnext] at hq
    rw [Option.some.inj hq, hr] at hready
    simp at hready

/-- A decision asks for a switch exactly if it chose another task, which then runs. -/
theorem Placed.asks (h : Placed cfg s s.currentTcb rq sl fl none) (hcpu : cfg.maxCpus = 1) :
    ((scheduleCpuLocked cfg s 0).1 = true ↔
      (scheduleCpuLocked cfg s 0).2.nextTcb ≠ (scheduleCpuLocked cfg s 0).2.currentTcb) ∧
    ((scheduleCpuLocked cfg s 0).1 = true → ∃ p, (scheduleCpuLocked cfg s 0).2.nextTcb = some p ∧
      ((scheduleCpuLocked cfg s 0).2.heap p).state = .running) := by
  rcases h.scheduleCpuLocked hcpu with ⟨d, heq, -, hk, -⟩ | ⟨p, d, heq, -, -, hd, -⟩
  · simp [heq, hk.nextTcb, hk.currentTcb]
  · rw [heq]
    refine ⟨?_, fun _ => ⟨p, hd.nextTcb, hd.running⟩⟩
    rw [decide_eq_true_iff, hd.nextTcb, hd.currentTcb]
    exact ne_comm

theorem Placed.asksSwitch_iff (h : Placed cfg s s.currentTcb rq sl fl none)
    (hcpu : cfg.maxCpus = 1) (hop : op.decides = true) (hp : perform cfg s op = some s') :
    (asksSwitch cfg s op = true ↔ s'.nextTcb ≠ s'.currentTcb) ∧
      (asksSwitch cfg s op = true → ∃ p, s'.nextTcb = some p ∧ (s'.heap p).state = .running) := by
  have hcpu0 := currentSchedulerCpuId_single hcpu
  cases op with
  | schedule =>
    simp only [perform, schedule, hcpu0, Option.some.injEq] at hp
    subst hp
    simp only [asksSwitch, schedule, hcpu0]
    exact Placed.asks h hcpu
  | scheduleIfPreemptPending =>
    simp only [perform, Option.some.injEq] at hp
    subst hp
    simp only [asksSwitch, scheduleIfPreemptPending, hcpu0]
    split
    · exact Placed.asks h hcpu
    · have hk : Kept s ((s.setPreemptPending 0 false).keepCurrentTask) := kept_of_no_preemption
      simp [hk.nextTcb, hk.currentTcb]
  | terminate =>
    simp only [perform, Option.ite_none_right_eq_some, Option.some.injEq] at hp
    rcases hp with ⟨hc, rfl⟩
    rcases State.currentRunning_iff.mp hc with ⟨c, hcur, hr⟩
    rcases h.terminateCurrent hcur hr hcpu with ⟨m, heq, hm, -, -, -, -⟩
    simp only [asksSwitch, heq]
    exact Placed.asks hm hcpu
  | _ => simp [Op.decides] at hop

theorem asksSwitch_of_not_decides (hop : op.decides = false) : asksSwitch cfg s op = false := by
  cases op with
  | schedule | scheduleIfPreemptPending | terminate => simp [Op.decides] at hop
  | _ => rfl

theorem Consistent.perform (h : Consistent cfg c) (hcpu : cfg.maxCpus = 1)
    (hok : op.decides = true → c.sched.nextTcb = c.sched.currentTcb)
    (hp : Sched.perform cfg c.sched op = some s') :
    Consistent cfg ⟨s', c.pendsv || asksSwitch cfg c.sched op⟩ := by
  rcases h.placed with ⟨rq, sl, fl, hplaced⟩
  rcases hplaced.perform hcpu hok hp with ⟨rq', sl', fl', hs', hperf⟩
  by_cases hd : op.decides = true
  · -- the previous decision was carried out, so no PendSV is pending
    have hnext := hok hd
    have hidle : c.pendsv = false := by simpa [hnext] using h.pending
    rw [hnext] at hplaced
    rcases Placed.asksSwitch_iff hplaced hcpu hd hp with ⟨hasks, hrun⟩
    rw [if_pos hd] at hs'
    refine ⟨⟨rq', sl', fl', hs'⟩, ?_, ?_⟩
    · simpa [hidle] using hasks
    · simpa [hidle] using hrun
  · have hd' : op.decides = false := by simpa using hd
    have hnext := hperf.nextTcb hd'
    rw [if_neg hd, ← hnext] at hs'
    rw [asksSwitch_of_not_decides hd', Bool.or_false]
    refine ⟨⟨rq', sl', fl', hs'⟩, ?_, ?_⟩
    · rw [hnext, hperf.currentTcb]
      exact h.pending
    · intro hpend
      rcases h.running hpend with ⟨p, hp, hr⟩
      refine ⟨p, hnext.trans hp, hperf.running p (hplaced.next_task p hp) hr hd' ?_⟩
      intro _ hcur
      exact h.pending.mp hpend (hp.trans hcur.symm)

theorem Consistent.step (h : Consistent cfg c) (hcpu : cfg.maxCpus = 1)
    (hok : DecidesSettled c act) (hstep : step cfg c act = some c') : Consistent cfg c' := by
  cases act with
  | op op =>
    rcases Option.map_eq_some_iff.mp hstep with ⟨s', hp, rfl⟩
    exact h.perform hcpu hok hp
  | pendsv =>
    simp only [CortexM.step, Option.ite_none_right_eq_some, Option.some.injEq] at hstep
    rcases hstep with ⟨hpend, rfl⟩
    rcases h.running hpend with ⟨p, hp, hr⟩
    rcases h.placed with ⟨rq, sl, fl, hplaced⟩
    have hswitch : pendsvHandler c.sched = switchContext c.sched := by
      simp [pendsvHandler, hp]
    rw [hswitch]
    refine ⟨⟨rq, sl, fl, ?_⟩, ?_, (by simp)⟩
    · exact hplaced.of_eq rfl rfl rfl rfl hplaced.next_task hplaced.next_task
    · simp [switchContext]

/-- The task that should run next is running, but a decision has forgotten it. -/
structure Lost (s : State) (p : TaskPtr) : Prop where
  isTask : s.IsTask p
  running : (s.heap p).state = .running
  notCurrent : s.currentTcb ≠ some p
  notNext : s.nextTcb ≠ some p
  notReady : ¬ InReadyQueue s p

theorem Lost.not_noTaskLost (h : Lost c.sched p) : ¬ NoTaskLost c := by
  intro hno
  rcases hno.found p h.isTask (by simp [h.running]) (by simp [h.running]) (by simp [h.running])
    with hcur | hnext | hready
  · exact h.notCurrent hcur
  · exact h.notNext hnext
  · exact h.notReady hready

theorem Placed.not_inReadyQueue {run' out : Option TaskPtr}
    (h : Placed cfg s run' rq sl fl out) (hr : (s.heap p).state = .running) :
    ¬ InReadyQueue s p := by
  intro hmem
  have hready := (h.ready_mem p (h.inReadyQueue_iff.mp hmem)).2.1
  simp [hr] at hready

section Pending

variable (h : Placed cfg s (some p) rq sl fl none) (hp : s.IsTask p)
  (hr : (s.heap p).state = .running) (hcur : s.currentTcb ≠ some p)
include h hcur

/-- While another task is about to run, the current one is not running. -/
theorem Placed.current_stopped : ∀ a, s.currentTcb = some a → (s.heap a).state ≠ .running := by
  intro a ha hra
  have hplace := h.inPlace (h.current_task a ha)
  rw [Place, hra] at hplace
  exact hcur (ha.trans hplace.1.symm)

include hp hr

/-- A decision taken while `p` is only held by `NEXT_TCB` loses `p`. -/
theorem Placed.schedule_loses (hcpu : cfg.maxCpus = 1) :
    Lost (scheduleCpuLocked cfg s 0).2 p := by
  set b := s.setPreemptPending 0 false with hb
  have hbp : Placed cfg b (some p) rq sl fl none := by
    refine h.of_eq rfl ?_ rfl rfl h.current_task h.next_task
    simp [hb]
  rw [schedule_of_stopped (Placed.current_stopped h hcur), ← hb]
  by_cases hne : members rq = []
  · rw [hbp.takeNext_empty hcpu hne]
    have hb' : Placed cfg (b.setNextTaskPtr b.currentTcb) (some p) rq sl fl none :=
      hbp.of_eq rfl rfl rfl rfl h.current_task h.current_task
    exact ⟨hp, hr, hcur, hcur, Placed.not_inReadyQueue hb' hr⟩
  · rcases hbp.takeNext hne with ⟨q, rq', m, hq, -, htake, hm, hfm, -, hmc, -⟩
    rcases hm.dispatchOut none with ⟨d, hdisp, hd, hfd, -, hdc, hdn, -⟩
    have hpq : p ≠ q := by
      rintro rfl
      have hready := (hbp.ready_mem p hq).2.1
      have hrb : (b.heap p).state = .running := hr
      simp [hrb] at hready
    have hstate : (d.heap p).state = .running := by
      rw [hfd.state (hfm.task p hp) hpq, hfm.state hp hpq]
      exact hr
    rw [htake, hdisp]
    refine ⟨hfd.task p (hfm.task p hp), hstate, ?_, ?_, Placed.not_inReadyQueue hd hstate⟩
    · rw [hdc, hmc]
      exact hcur
    · rw [hdn]
      exact fun he => hpq (Option.some.inj he).symm

/-- The other decisions lose `p` as well: nobody can terminate, and a preemption that is not
pending stores the current task in `NEXT_TCB`. -/
theorem Placed.perform_loses (hcpu : cfg.maxCpus = 1) (hop : op.decides = true)
    (hs' : perform cfg s op = some s') : Lost s' p := by
  have hcpu0 := currentSchedulerCpuId_single hcpu
  have hstop := Placed.current_stopped h hcur
  have hidle : s.currentRunning = false := by
    by_contra hrun
    rcases State.currentRunning_iff.mp (by simpa using hrun) with ⟨a, ha, hra⟩
    exact hstop a ha hra
  cases op with
  | schedule =>
    simp only [perform, schedule, hcpu0, Option.some.injEq] at hs'
    exact hs' ▸ Placed.schedule_loses h hp hr hcur hcpu
  | scheduleIfPreemptPending =>
    have hnot : preemptPending cfg s = false := by
      cases hc : s.currentTcb with
      | none => simp [preemptPending, hasHigherReadyThanCurrent, hc]
      | some a => simp [preemptPending, hasHigherReadyThanCurrent, hc, State.isRunning, hstop a hc]
    have hk : Kept s s' := by
      simp only [perform, scheduleIfPreemptPending, hnot, hcpu0, Bool.false_eq_true, if_false,
        Option.some.injEq] at hs'
      exact hs' ▸ kept_of_no_preemption
    have hstate : (s'.heap p).state = .running := by
      rw [hk.frame.state hp (Set.notMem_empty p), hr]
    refine ⟨hk.frame.task p hp, hstate, ?_, ?_, Placed.not_inReadyQueue (h.kept hk) hstate⟩
    · rw [hk.currentTcb]
      exact hcur
    · rw [hk.nextTcb]
      exact hcur
  | terminate => simp [perform, hidle] at hs'
  | _ => simp [Op.decides] at hop

end Pending

theorem boot_consistent (hcpu : cfg.maxCpus = 1) {idle root : TaskArgs} {uninit : Heap}
    (h : boot cfg idle root uninit = some c) : Consistent cfg c := by
  rcases Option.map_eq_some_iff.mp h with ⟨s, hs, rfl⟩
  rcases initSystemTasks_placed hcpu hs with ⟨rq, fl, hplaced, -, hcur, -⟩
  have hplaced : Placed cfg s s.currentTcb rq [] fl none := hcur ▸ hplaced
  rcases hplaced.decision hcpu .schedule rfl rfl with ⟨rq', hd, -⟩
  rw [schedule, currentSchedulerCpuId_single hcpu]
  refine ⟨⟨rq', [], fl, hd.of_eq rfl rfl rfl rfl hd.next_task hd.next_task⟩, ?_, (by simp)⟩
  simp [switchContext]

/-- In a run from the boot state no task is ever lost exactly if no decision is taken while
`NEXT_TCB` and `CURRENT_TCB` differ. -/
theorem no_task_lost_iff (cfg : Config) (hcpu : cfg.maxCpus = 1) (idle root : TaskArgs)
    (uninit : Heap) (c : Core) (hc : boot cfg idle root uninit = some c) (acts : List Act) :
    Always (step cfg) NoTaskLost c acts ↔ Along (step cfg) DecidesSettled c acts := by
  apply always_iff_along (P := Consistent cfg) (fun c h => h.noTaskLost)
  · intro c act c' h hok hstep
    exact h.step hcpu hok hstep
  · intro c act c' h hbad hstep
    cases act with
    | pendsv => exact absurd trivial hbad
    | op op =>
      rcases Option.map_eq_some_iff.mp hstep with ⟨s', hs', rfl⟩
      simp only [DecidesSettled, Classical.not_imp] at hbad
      rcases h.running (h.pending.mpr hbad.2) with ⟨p, hp, hr⟩
      rcases h.placed with ⟨rq, sl, fl, hplaced⟩
      have hcur : c.sched.currentTcb ≠ some p := fun he => hbad.2 (hp.trans he.symm)
      have htask := hplaced.next_task p hp
      rw [hp] at hplaced
      have hlost := Placed.perform_loses hplaced htask hr hcur hcpu hbad.1 hs'
      exact Lost.not_noTaskLost hlost
  · exact boot_consistent hcpu hc

/-- Root yields to a new task of its priority, and the tick arrives before PendSV: the second
decision takes root again and the new task is lost. -/
theorem tick_before_pendsv_loses_task :
    ∃ c c', boot .small (.ofPriority 0) (.ofPriority 1) .blank = some c ∧
      run (step .small) c [.op (.createTask (.ofPriority 1)), .op .schedule, .op .tick,
        .op .tickUpdate, .op .schedule] = some c' ∧ ¬ NoTaskLost c' := by
  have htest : ((boot .small (.ofPriority 0) (.ofPriority 1) .blank).bind fun c =>
      run (step .small) c [.op (.createTask (.ofPriority 1)), .op .schedule, .op .tick,
        .op .tickUpdate, .op .schedule]).any (fun c => decide (c.sched.IsTask 2 ∧
          (c.sched.heap 2).state = .running ∧ c.sched.currentTcb ≠ some 2 ∧
          c.sched.nextTcb ≠ some 2 ∧ ∀ i < maxPriorities,
            Chain c.sched.heap.next ((c.sched.cpuScheds 0).readyQueue.queues i).head
              (if i = 0 then [0] else []))) = true := by
    decide +kernel
  rcases (Option.any_eq_true _ _).mp htest with ⟨c', hc', hfacts⟩
  rcases Option.bind_eq_some_iff.mp hc' with ⟨c, hc, hrun⟩
  rcases of_decide_eq_true hfacts with ⟨htask, hr, hcur, hnext, hchain⟩
  refine ⟨c, c', hc, hrun, Lost.not_noTaskLost ⟨htask, hr, hcur, hnext, ?_⟩⟩
  rintro ⟨i, hi, hlinked⟩
  have hmem := (hchain i hi).linked_iff.mp hlinked
  split at hmem
  · simp at hmem
  · simp at hmem

theorem pendsv_before_tick_no_task_lost :
    ∃ c, boot .small (.ofPriority 0) (.ofPriority 1) .blank = some c ∧
      Always (step .small) NoTaskLost c [.op (.createTask (.ofPriority 1)), .op .schedule, .pendsv,
        .op .tick, .op .tickUpdate, .op .schedule, .pendsv] := by
  have htest : (boot .small (.ofPriority 0) (.ofPriority 1) .blank).any (fun c =>
      decide (Along (step .small) DecidesSettled c [.op (.createTask (.ofPriority 1)), .op .schedule,
        .pendsv, .op .tick, .op .tickUpdate, .op .schedule, .pendsv])) = true := by
    decide +kernel
  rcases (Option.any_eq_true _ _).mp htest with ⟨c, hc, hok⟩
  exact ⟨c, hc, (no_task_lost_iff .small rfl _ _ _ c hc _).mpr (of_decide_eq_true hok)⟩

end OpenIon.Sched.CortexM
