import OpenIon.Sched.Machine

/-! # Every task has one place on RISC-V

On RISC-V a decision is taken inside a trap, and the exit of the trap switches to
`NEXT_TCB` before anything else runs. Between the sections the current task is
therefore the one that runs, unless it has stopped itself.
-/
namespace OpenIon.Sched.Riscv
open Lib

/-- One section, and after a decision the switch at the trap exit. -/
def step (cfg : Config) (s : State) (op : Op) : Option State :=
  (perform cfg s op).map fun s' => if op.decides then switchContext s' else s'

/-- The state after `init`, `init_system_tasks` and a sequence of sections. -/
def system (cfg : Config) (idle root : TaskArgs) (uninit : Heap) (ops : List Op) : Option State :=
  (initSystemTasks cfg idle root (init cfg uninit)).bind fun s => run (step cfg) s ops

def Reachable (cfg : Config) (s : State) : Prop :=
  ∃ idle root uninit ops, system cfg idle root uninit ops = some s

variable {cfg : Config} {s s' : State} {rq : ℕ → List TaskPtr} {sl fl : List TaskPtr}
  {p : TaskPtr} {op : Op}

theorem Reachable.induction {P : State → Prop} (hs : Reachable cfg s)
    (hinit : ∀ idle root uninit s, initSystemTasks cfg idle root (init cfg uninit) = some s → P s)
    (hstep : ∀ s op s', P s → step cfg s op = some s' → P s') : P s := by
  rcases hs with ⟨idle, root, uninit, ops, hops⟩
  rcases Option.bind_eq_some_iff.mp hops with ⟨s₀, h₀, hrun⟩
  exact run_preserves hstep (hinit idle root uninit s₀ h₀) hrun

/-- Every task is in its place, and the current one is the only one that may run. -/
def AllPlaced (cfg : Config) (s : State) : Prop :=
  ∃ rq sl fl, Placed cfg s s.currentTcb rq sl fl none

theorem AllPlaced.step (h : AllPlaced cfg s) (hcpu : cfg.maxCpus = 1)
    (hstep : step cfg s op = some s') :
    AllPlaced cfg s' ∧ ∃ m, perform cfg s op = some m ∧ Performed op s m ∧
      s' = if op.decides then switchContext m else m := by
  rcases Option.map_eq_some_iff.mp hstep with ⟨m, hm, rfl⟩
  rcases h with ⟨rq, sl, fl, h⟩
  rcases h.perform hcpu (fun _ => rfl) hm with ⟨rq', sl', fl', hm', hperf⟩
  refine ⟨⟨rq', sl', fl', ?_⟩, m, hm, hperf, rfl⟩
  by_cases hd : op.decides = true
  · rw [if_pos hd] at hm' ⊢
    exact hm'.of_eq rfl rfl rfl rfl hm'.next_task hm'.next_task
  · rw [if_neg hd] at hm' ⊢
    rw [hperf.currentTcb]
    exact hm'

theorem Reachable.allPlaced (hs : Reachable cfg s) (hcpu : cfg.maxCpus = 1) :
    AllPlaced cfg s := by
  apply hs.induction
  · intro idle root uninit s h₀
    rcases initSystemTasks_placed hcpu h₀ with ⟨rq, fl, h, -, hcur, -⟩
    exact ⟨rq, [], fl, hcur ▸ h⟩
  · intro s op s' h hstep
    exact (h.step hcpu hstep).1

def ReadyLists (s : State) (rq : ℕ → List TaskPtr) : Prop :=
  ∀ i < maxPriorities, Chain s.heap.next ((s.cpuScheds 0).readyQueue.queues i).head (rq i)

/-- The four places of a task. They exclude each other already by the state they ask for. -/
inductive InPlace (s : State) (rq : ℕ → List TaskPtr) (sl : List TaskPtr) (p : TaskPtr) : Prop where
  | current (state : (s.heap p).state = .running) (current : s.currentTcb = some p)
      (unique : ∀ a, s.IsTask a → (s.heap a).state = .running → a = p)
      (notReady : p ∉ members rq) (notSleeping : p ∉ sl)
  | readyQueue (state : (s.heap p).state = .ready) (queued : (s.heap p).queued = true)
      (once : (members rq).count p = 1) (notSleeping : p ∉ sl)
  | sleepList (state : (s.heap p).state = .sleeping) (queued : (s.heap p).queued = false)
      (once : sl.count p = 1) (notReady : p ∉ members rq)
  | blocked (state : (s.heap p).state = .blocked) (notReady : p ∉ members rq)
      (notSleeping : p ∉ sl)

theorem Placed.inPlace (h : Placed cfg s s.currentTcb rq sl fl none) (hp : s.IsTask p)
    (hne : (s.heap p).state ≠ .terminated) : InPlace s rq sl p := by
  have hready : (s.heap p).state ≠ .ready → p ∉ members rq := by
    intro hs hp
    exact hs (h.ready_mem p hp).2.1
  have hsleep : (s.heap p).state ≠ .sleeping → p ∉ sl := by
    intro hs hp
    exact hs (h.sleep_mem p hp).2.1
  have hplace := h.inPlace hp
  unfold Place at hplace
  split at hplace
  case h_1 hs =>
    apply InPlace.readyQueue hs (h.ready.queued_of_mem hplace)
    · exact List.count_eq_one_of_mem h.ready.nodup hplace
    · exact hsleep (by simp [hs])
  case h_2 hs =>
    apply InPlace.current hs hplace.1 _ (hready (by simp [hs])) (hsleep (by simp [hs]))
    intro a ha hr
    have hplace' := h.inPlace ha
    rw [Place, hr, hplace.1] at hplace'
    exact (Option.some.inj hplace'.1).symm
  case h_3 hs =>
    apply InPlace.sleepList hs hplace.2 _ (hready (by simp [hs]))
    exact List.count_eq_one_of_mem h.sleep.nodup hplace.1
  case h_4 hs => exact InPlace.blocked hs (hready (by simp [hs])) (hsleep (by simp [hs]))
  case h_5 hs => exact absurd hs hne
  case h_6 hs => exact hplace.elim

/-- Every task that has not terminated is in one place, and the ready queue takes every task
that is woken: `wake_blocked_task` succeeds on every blocked task, and `tick_update` makes every
sleeper that is due ready and queued. -/
structure TasksInPlace (cfg : Config) (s : State) (rq : ℕ → List TaskPtr) (sl : List TaskPtr) :
    Prop where
  ready : ReadyLists s rq
  sleep : Chain s.heap.next s.sleepQueue sl
  place : ∀ p, s.IsTask p → (s.heap p).state ≠ .terminated → InPlace s rq sl p
  wake : ∀ p, s.IsTask p → (s.heap p).state = .blocked →
    (wakeBlockedTask cfg s (some p)).1 = true
  wakeDue : ∃ s', tickUpdate cfg s = some s' ∧
    ∀ p ∈ sl, isDue s.ticks (s.heap p).wakeupTick = true →
      (s'.heap p).state = .ready ∧ (s'.heap p).queued = true

theorem Placed.wakeDue (h : Placed cfg s s.currentTcb rq sl fl none) (hcpu : cfg.maxCpus = 1) :
    ∃ s', tickUpdate cfg s = some s' ∧
      ∀ p ∈ sl, isDue s.ticks (s.heap p).wakeupTick = true →
        (s'.heap p).state = .ready ∧ (s'.heap p).queued = true := by
  rcases h.tickUpdate hcpu with ⟨s', rq', heq, hs', hall⟩
  refine ⟨s', heq, ?_⟩
  intro p hp hdue
  have hready := hall.ready p (List.mem_filter.mpr ⟨hp, hdue⟩)
  have hplace := hs'.inPlace (hall.frame.task p (h.sleep_mem p hp).1)
  rw [Place, hready] at hplace
  exact ⟨hready, hs'.ready.queued_of_mem hplace⟩

/-- In every reachable state the tasks are in their places. -/
theorem reachable_tasks_in_place (cfg : Config) (hcpu : cfg.maxCpus = 1) (s : State)
    (hs : Reachable cfg s) : ∃ rq sl, TasksInPlace cfg s rq sl := by
  rcases hs.allPlaced hcpu with ⟨rq, sl, fl, h⟩
  refine ⟨rq, sl, h.ready.chain, h.sleep, fun p hp hne => Placed.inPlace h hp hne, ?_,
    Placed.wakeDue h hcpu⟩
  intro p hp hb
  rcases h.wakeBlockedTask hcpu hp hb with ⟨s', heq, -, -⟩
  rw [heq]

theorem sleeping_root_in_place :
    ∃ s rq sl, system .small (.ofPriority 0) (.ofPriority 1) .blank
        [.schedule, .createTask (.ofPriority 1), .delay 3, .schedule, .tick, .tickUpdate] = some s ∧
      TasksInPlace .small s rq sl := by
  have hsome : (system .small (.ofPriority 0) (.ofPriority 1) .blank
      [.schedule, .createTask (.ofPriority 1), .delay 3, .schedule, .tick, .tickUpdate]).isSome =
      true := by decide
  rcases Option.isSome_iff_exists.mp hsome with ⟨s, hs⟩
  rcases reachable_tasks_in_place .small rfl s ⟨_, _, _, _, hs⟩ with ⟨rq, sl, h⟩
  exact ⟨s, rq, sl, hs, h⟩

end OpenIon.Sched.Riscv
