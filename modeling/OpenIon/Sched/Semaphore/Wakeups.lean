import OpenIon.Sched.Semaphore.Ledger

/-! # Lost wakeups of a semaphore

`release_many` drops the lock after it has found no waiter and takes it again to
add the permits. A task that calls `wait` in between sees no permit, blocks, and
is not woken by the permits that are added afterwards.
-/
namespace OpenIon.Sched.Semaphore
open Lib

variable {N : ℕ} {cfg : Config} {w w' : World N} {l : List TaskPtr} {act : Act} {a b : Ledger}

def Quiet (cfg : Config) (w : World N) : Prop := ∀ p < cfg.taskCap, (w.pc p).inRelease = false

/-- Outside `release_many` there is no permit left while a task is blocked in the queue. -/
def NoLostWakeup (cfg : Config) (w : World N) : Prop :=
  Quiet cfg w → 0 < w.permits →
    ∀ p, w.waiters.contains (some p) = true → (w.sched.heap p).state ≠ .blocked

def Pc.isAdding : Pc → Bool
  | addingPermits _ => true
  | _ => false

/-- No task blocks in `wait` while a `release_many` is between its failed `wake_one` and the
addition of its permits. -/
def WaitsOutsideWindow (cfg : Config) (w : World N) : Act → Prop
  | .wait => w.permits = 0 → ∀ p < cfg.taskCap, (w.pc p).isAdding = false
  | _ => True

instance (cfg : Config) (w : World N) : (act : Act) → Decidable (WaitsOutsideWindow cfg w act)
  | .wait => inferInstanceAs
      (Decidable (w.permits = 0 → ∀ p < cfg.taskCap, (w.pc p).isAdding = false))
  | .tryAcquire | .releaseMany _ | .resume | .sched _ => isTrue trivial

/-- Permits, present or about to be added, and waiters exclude each other. -/
structure Ledger.Settled (a : Ledger) : Prop where
  permits : 0 < a.permits → a.waiting = []
  adding : ∀ c, (a.pc c).isAdding = true → a.waiting = []

/-- A task that is not in the window keeps the others out of consideration. -/
theorem isAdding_update {pc : TaskPtr → Pc} {c p : TaskPtr} {x : Pc} (hx : x.isAdding = false)
    (h : (Function.update pc c x p).isAdding = true) : (pc p).isAdding = true := by
  by_cases hp : p = c
  · subst hp
    simp [hx] at h
  · rwa [Function.update_of_ne hp] at h

theorem Ledger.Settled.move (h : a.Settled) (hmove : Move cfg a act b)
    (hok : act = .wait → a.permits = 0 → ∀ c, (a.pc c).isAdding = false) : b.Settled := by
  cases hmove with
  | stutter => exact h
  | acquire _ hpermit => exact ⟨fun _ => h.permits hpermit, h.adding⟩
  | enqueue c hnone =>
    constructor
    · intro hpos
      exact absurd hnone (Nat.pos_iff_ne_zero.mp hpos)
    · intro p hp
      simp [hok rfl hnone p] at hp
  | start c count _ _ _ => exact ⟨h.permits, fun p hp => h.adding p (isAdding_update rfl hp)⟩
  | handOver c count woke q rest _ hpc hhead =>
    have hne : a.waiting ≠ [] := by simp [hhead]
    constructor
    · intro hpos
      exact absurd (h.permits hpos) hne
    · intro p hp
      refine absurd (h.adding p (isAdding_update ?_ hp)) hne
      split_ifs <;> rfl
  | miss c count woke _ hpc hempty => exact ⟨fun _ => hempty, fun _ _ => hempty⟩
  | add c permits _ hpc =>
    have hempty := h.adding c (by rw [hpc]; rfl)
    exact ⟨fun _ => hempty, fun _ _ => hempty⟩

/-- The machine's invariant in runs without a wait in the window. -/
def WaitingSettled (cfg : Config) (w : World N) : Prop :=
  ∃ l, Waiting cfg w l ∧ (w.ledger l).Settled

theorem WaitingSettled.step (h : WaitingSettled cfg w) (hcpu : cfg.maxCpus = 1)
    (hok : WaitsOutsideWindow cfg w act) (hstep : step cfg w act = some w') :
    WaitingSettled cfg w' := by
  rcases h with ⟨l, hw, hl⟩
  rcases hw.step hcpu hstep with ⟨l', hw', hmove⟩
  refine ⟨l', hw', hl.move hmove ?_⟩
  rintro rfl hzero p
  by_cases hp : p < cfg.taskCap
  · exact hok hzero p hp
  · have hidle : w.pc p = .idle := by
      by_contra hne
      exact hp (hw.tasks p hne)
    simp [World.ledger, hidle, Pc.isAdding]

theorem WaitingSettled.noLostWakeup (h : WaitingSettled cfg w) : NoLostWakeup cfg w := by
  rcases h with ⟨l, hw, hl⟩
  intro _ hpos p hp
  have hnil : l = [] := hl.permits hpos
  rw [hw.holds.contains_iff, hnil] at hp
  simp at hp

/-- In every run in which no task blocks inside the window of a `release_many`, no wakeup is
lost in any state. -/
theorem no_lost_wakeup_outside_window (N : ℕ) (cfg : Config) (hcpu : cfg.maxCpus = 1)
    (idle root : TaskArgs) (uninit : Heap) (s : State)
    (hs : initSystemTasks cfg idle root (init cfg uninit) = some s) (permits : ℕ) (acts : List Act)
    (hok : Along (step cfg) (WaitsOutsideWindow cfg) (World.new N s permits) acts) :
    Always (step cfg) (NoLostWakeup cfg) (World.new N s permits) acts := by
  have hstart : WaitingSettled cfg (World.new N s permits) :=
    ⟨[], .new hcpu hs permits, fun _ => rfl, fun _ _ => rfl⟩
  have hinv := hok.always (P := WaitingSettled cfg) (fun w act w' h hok' hstep =>
    h.step hcpu hok' hstep) hstart
  exact hinv.imp fun w h => h.noLostWakeup

/-- Root finds no waiter for its release and is preempted; task 2 finds no permit and blocks;
root adds the permit. Task 2 stays blocked although there is a permit. -/
theorem wait_in_window_loses_wakeup :
    ∃ s w, initSystemTasks .small (.ofPriority 0) (.ofPriority 1) (init .small .blank) = some s ∧
      run (step .small) (World.new 2 s 0) [.sched .schedule, .sched (.createTask (.ofPriority 1)),
        .release, .resume, .sched .schedule, .wait, .sched .schedule, .resume] = some w ∧
      ¬ NoLostWakeup .small w := by
  have htest : ((initSystemTasks .small (.ofPriority 0) (.ofPriority 1) (init .small .blank)).bind
      fun s => run (step .small) (World.new 2 s 0) [.sched .schedule,
        .sched (.createTask (.ofPriority 1)), .release, .resume, .sched .schedule, .wait,
        .sched .schedule, .resume]).any (fun w => decide
          ((∀ p < Config.small.taskCap, (w.pc p).inRelease = false) ∧ 0 < w.permits ∧
            w.waiters.contains (some 2) = true ∧ (w.sched.heap 2).state = .blocked)) = true := by
    decide +kernel
  rcases (Option.any_eq_true _ _).mp htest with ⟨w, hw, hfacts⟩
  rcases Option.bind_eq_some_iff.mp hw with ⟨s, hs, hrun⟩
  rcases of_decide_eq_true hfacts with ⟨hquiet, hpos, hmem, hblocked⟩
  exact ⟨s, w, hs, hrun, fun hno => hno hquiet hpos 2 hmem hblocked⟩

theorem wait_before_release_is_woken :
    ∃ s, initSystemTasks .small (.ofPriority 0) (.ofPriority 1) (init .small .blank) = some s ∧
      Always (step .small) (NoLostWakeup .small) (World.new 2 s 0) [.sched .schedule,
        .sched (.createTask (.ofPriority 1)), .sched .schedule, .wait, .sched .schedule, .release,
        .resume] := by
  have htest : (initSystemTasks .small (.ofPriority 0) (.ofPriority 1) (init .small .blank)).any
      (fun s => decide (Along (step .small) (WaitsOutsideWindow .small) (World.new 2 s 0)
        [.sched .schedule, .sched (.createTask (.ofPriority 1)), .sched .schedule, .wait,
          .sched .schedule, .release, .resume])) = true := by
    decide +kernel
  rcases (Option.any_eq_true _ _).mp htest with ⟨s, hs, hok⟩
  exact ⟨s, hs, no_lost_wakeup_outside_window 2 .small rfl _ _ _ s hs 0 _ (of_decide_eq_true hok)⟩

end OpenIon.Sched.Semaphore
