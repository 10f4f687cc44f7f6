import OpenIon.Sched.Placement.Dispatch
import OpenIon.Sched.Stealing

/-! # Idle CPUs and work stealing

`schedule_cpu_locked` keeps a running task when the local queue is empty, before it comes to the
point where it would steal. So a CPU that runs its idle task never steals; it does as soon as its
current task is no longer running.
-/
namespace OpenIon.Sched
open Lib

variable {cfg : Config} {s : State} {rq : ℕ → ℕ → List TaskPtr} {c v : ℕ} {p t : TaskPtr}

/-- The scheduler has chosen a task that can be stolen from another CPU. -/
def SelectsStolen (cfg : Config) (s : State) (rq : ℕ → ℕ → List TaskPtr) (c : ℕ) : Prop :=
  ∃ u < cfg.maxCpus, u ≠ c ∧ ∃ t, Stealable cfg s rq c u t ∧
    (scheduleCpuLocked cfg s c).2.nextTcb = some t

section

variable (h : RunQueues cfg s rq) (hc : c < cfg.maxCpus) (hcur : s.currentTcb = some p)
  (hempty : members (rq c) = [])
include h hc hcur hempty

theorem scheduleCpuLocked_keeps (hrun : (s.heap p).state = .running) :
    (scheduleCpuLocked cfg s c).2.nextTcb = some p := by
  rw [(h.wf c hc).schedule_onTop ⟨p, hcur, hrun, by simp [hempty]⟩]
  exact hcur

/-- A current task that does not run gives way to a stolen one. -/
theorem scheduleCpuLocked_steals (hrun : (s.heap p).state ≠ .running) (hv : v < cfg.maxCpus)
    (hne : v ≠ c) (hsteal : Stealable cfg s rq c v t) : SelectsStolen cfg s rq c := by
  have hstop : ∀ a, s.currentTcb = some a → (s.heap a).state ≠ .running := by
    intro a ha
    rwa [← Option.some.inj (hcur.symm.trans ha)]
  have hq : RunQueues cfg (s.setPreemptPending c false) rq := h.setCpu rfl
  have hmany : 1 < cfg.maxCpus := by omega
  have htake : takeNext cfg (s.setPreemptPending c false) c =
      tryStealTask cfg (s.setPreemptPending c false) c := by
    rw [takeNext, ReadyQueue.popHighest_empty (hq.wf c hc) hempty]
    exact if_pos hmany
  have hsame : ∀ u a, Stealable cfg (s.setPreemptPending c false) rq c u a ↔
      Stealable cfg s rq c u a := fun u a => stealable_congr (fun _ => rfl) rfl
  obtain ⟨-, -, ⟨a, u, hr, ⟨⟨hu, huc⟩, hstolen⟩, -⟩ | ⟨-, hno, -⟩⟩ := tryStealTask_spec hq hc
  · refine ⟨u, hu, huc, a, (hsame u a).mp hstolen, ?_⟩
    obtain ⟨_, hdisp, -⟩ := dispatchNext_some
      (tryStealTask cfg (s.setPreemptPending c false) c).2 c none a
    rw [schedule_of_stopped hstop, htake, hr, hdisp]
    rfl
  · exact absurd ⟨⟨hv, hne⟩, (hsame v t).mpr hsteal⟩ (hno v t)

/-- A running task is kept, and it is in no queue from which it could have been stolen. -/
theorem not_selectsStolen (hrun : (s.heap p).state = .running) : ¬SelectsStolen cfg s rq c := by
  rintro ⟨u, hu, -, a, hstolen, hnext⟩
  rw [scheduleCpuLocked_keeps h hc hcur hempty hrun, Option.some.injEq] at hnext
  obtain ⟨rest, hm, -⟩ := hstolen.exists_cons
  have hready := h.ready u hu a (hm ▸ List.mem_cons_self)
  rw [← hnext, hrun] at hready
  cases hready

end

/-- With an empty local queue and a task to steal, a stolen task is chosen exactly if the current
task is not running. -/
theorem steals_iff_not_running (h : RunQueues cfg s rq) (hc : c < cfg.maxCpus)
    (hcur : s.currentTcb = some p) (hempty : members (rq c) = []) (hv : v < cfg.maxCpus)
    (hne : v ≠ c) (hsteal : Stealable cfg s rq c v t) :
    SelectsStolen cfg s rq c ↔ (s.heap p).state ≠ .running := by
  constructor
  · exact fun hselects hrun => not_selectsStolen h hc hcur hempty hrun hselects
  · exact fun hrun => scheduleCpuLocked_steals h hc hcur hempty hrun hv hne hsteal

theorem dualState_stealable {current : TaskState} (h : current = .running ∨ current = .blocked) :
    Stealable .dual (dualState current) dualLists 0 1 1 := by
  refine ⟨by decide +kernel, by decide, by decide, ?_⟩
  obtain rfl | rfl := h <;> rfl

theorem blocked_current_steals :
    RunQueues .dual (dualState .blocked) dualLists ∧
      Stealable .dual (dualState .blocked) dualLists 0 1 1 ∧
      (SelectsStolen .dual (dualState .blocked) dualLists 0 ↔
        ((dualState .blocked).heap 0).state ≠ .running) :=
  ⟨dualState_runQueues (.inr rfl), dualState_stealable (.inr rfl),
    steals_iff_not_running (dualState_runQueues (.inr rfl)) (Nat.succ_pos 1) rfl (by decide)
      (Nat.lt_succ_self 1) (by decide) (dualState_stealable (.inr rfl))⟩

/-- The first CPU runs its idle task and its queue is empty, and the second one has two tasks that
may run anywhere: the idle task is kept. -/
theorem idle_cpu_keeps_idle :
    RunQueues .dual (dualState .running) dualLists ∧
      (dualState .running).currentTcb = some 0 ∧
      ((dualState .running).heap 0).state = .running ∧
      ((dualState .running).cpuScheds 0).idleTask = some ((dualState .running).heap 0).id ∧
      members (dualLists 0) = [] ∧ Stealable .dual (dualState .running) dualLists 0 1 1 ∧
      (scheduleCpuLocked .dual (dualState .running) 0).2.nextTcb = some 0 ∧
      ¬SelectsStolen .dual (dualState .running) dualLists 0 := by
  have hqueues := dualState_runQueues (.inl rfl)
  have hempty : members (dualLists 0) = [] := by decide
  exact ⟨hqueues, rfl, rfl, rfl, hempty, dualState_stealable (.inl rfl),
    scheduleCpuLocked_keeps hqueues (Nat.succ_pos 1) rfl hempty rfl,
    not_selectsStolen hqueues (Nat.succ_pos 1) rfl hempty rfl⟩

end OpenIon.Sched
