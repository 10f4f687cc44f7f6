import OpenIon.Sched.Riscv.Places
import OpenIon.Sched.CortexM

/-! # Control blocks are not given back

`create_task` takes a control block from the pool and panics when there is none. Only a creation
whose push is refused frees its block again; `terminate_current` does not. So a task can be created
exactly if fewer tasks than there are blocks have ever been created, whatever became of them.
-/
namespace OpenIon.Sched
open Lib

def State.notTerminated (cfg : Config) (s : State) : ℕ :=
  (List.range cfg.taskCap).countP fun p => s.IsTask p ∧ (s.heap p).state ≠ .terminated

/-- While fewer tasks than `TASK_CAP` are not terminated, `create_task` returns, and with an id that
no task has. -/
def SlotsReclaimed (cfg : Config) (s : State) : Prop :=
  s.notTerminated cfg < cfg.taskCap → ∀ args, ∃ id s', createTask cfg s args = some (id, s') ∧
    id ≠ taskIdInvalid ∧ ∀ p, s.IsTask p → (s.heap p).id ≠ id

/-- No control block was taken or given back, no task id handed out, and the tick is the same. -/
structure SameBlocks (s s' : State) : Prop where
  live : s'.pool.live = s.pool.live
  taskIdCounter : s'.taskIdCounter = s.taskIdCounter
  ticks : s'.ticks = s.ticks

namespace SameBlocks

variable {cfg : Config} {s m s' : State} {p : TaskPtr} {op : Op} {cpu : ℕ}

theorem refl (s : State) : SameBlocks s s := ⟨rfl, rfl, rfl⟩

theorem enqueueOn (h : SameBlocks s m) (cfg : Config) (cpu : ℕ) (p : TaskPtr) :
    SameBlocks s (enqueueOn cfg m cpu p).2 := by
  unfold Sched.enqueueOn
  split
  · exact h
  · exact ⟨h.live, h.taskIdCounter, h.ticks⟩

theorem unlinkSleeper (h : SameBlocks s m) (prev next : Option TaskPtr) :
    SameBlocks s (unlinkSleeper m prev next) := by
  cases prev with
  | none => exact ⟨h.live, h.taskIdCounter, h.ticks⟩
  | some prev => exact ⟨h.live, h.taskIdCounter, h.ticks⟩

theorem wakeSleeper (h : SameBlocks s m) (prev : Option TaskPtr) :
    SameBlocks s (wakeSleeper cfg m prev p) := by
  unfold Sched.wakeSleeper
  have hunlink := h.unlinkSleeper prev (m.heap p).next
  generalize Sched.unlinkSleeper m prev (m.heap p).next = m' at hunlink ⊢
  have hready : SameBlocks s (m'.setTask p { m'.heap p with state := .ready, next := none }) :=
    ⟨hunlink.live, hunlink.taskIdCounter, hunlink.ticks⟩
  have henq := fun cpu => hready.enqueueOn cfg cpu p
  dsimp only
  split
  · exact henq _
  · exact ⟨(henq _).live, (henq _).taskIdCounter, (henq _).ticks⟩

theorem tickLoop {fuel : ℕ} {prev curr : Option TaskPtr} (h : SameBlocks s m)
    (hloop : tickLoop cfg fuel m prev curr = some s') : SameBlocks s s' := by
  induction fuel generalizing m prev curr with
  | zero =>
    cases curr with
    | none => exact Option.some.inj hloop ▸ h
    | some curr => cases hloop
  | succ fuel ih =>
    cases curr with
    | none => exact Option.some.inj hloop ▸ h
    | some curr =>
      rw [Sched.tickLoop] at hloop
      split at hloop
      · exact ih (h.wakeSleeper prev) hloop
      · exact ih h hloop

theorem stealFrom (h : SameBlocks s m) (offsets : List ℕ) :
    SameBlocks s (stealFrom cfg cpu offsets m).2 := by
  induction offsets generalizing m with
  | nil => exact h
  | cons offset offsets ih =>
    rw [Sched.stealFrom]
    dsimp only
    split_ifs
    · exact ih h
    · exact ih h
    · split
      · exact ih ⟨h.live, h.taskIdCounter, h.ticks⟩
      · split_ifs
        · exact ⟨h.live, h.taskIdCounter, h.ticks⟩
        · exact ih ⟨h.live, h.taskIdCounter, h.ticks⟩

theorem takeNext (h : SameBlocks s m) : SameBlocks s (takeNext cfg m cpu).2 := by
  unfold Sched.takeNext
  split
  · exact ⟨h.live, h.taskIdCounter, h.ticks⟩
  · split_ifs
    · unfold tryStealTask
      exact stealFrom (m := m.setCpu cpu _) ⟨h.live, h.taskIdCounter, h.ticks⟩ _
    · exact h

theorem dispatchNext (h : SameBlocks s m) (priority : Option ℕ) (next : Option TaskPtr) :
    SameBlocks s (dispatchNext m cpu priority next).2 := by
  cases next with
  | none => exact ⟨h.live, h.taskIdCounter, h.ticks⟩
  | some p =>
    rw [Sched.dispatchNext]
    dsimp only
    split_ifs
    · exact ⟨h.live, h.taskIdCounter, h.ticks⟩
    · exact ⟨h.live, h.taskIdCounter, h.ticks⟩

theorem requeueCurrent (h : SameBlocks s m) (cfg : Config) (cpu : ℕ) :
    SameBlocks s (requeueCurrent cfg m cpu).2 := by
  unfold Sched.requeueCurrent
  dsimp only
  split
  · exact h
  · split_ifs
    · split
      · exact ⟨h.live, h.taskIdCounter, h.ticks⟩
      · exact ⟨h.live, h.taskIdCounter, h.ticks⟩
    · exact h

theorem scheduleCpuLocked (h : SameBlocks s m) :
    SameBlocks s (scheduleCpuLocked cfg m cpu).2 := by
  unfold Sched.scheduleCpuLocked
  dsimp only
  have hflag : SameBlocks s (m.setPreemptPending cpu false) := ⟨h.live, h.taskIdCounter, h.ticks⟩
  have hrequeue := hflag.requeueCurrent cfg cpu
  split_ifs
  · exact ⟨h.live, h.taskIdCounter, h.ticks⟩
  · split
    · rename_i heq
      rw [heq] at hrequeue
      exact ⟨hrequeue.live, hrequeue.taskIdCounter, hrequeue.ticks⟩
    · rename_i heq
      rw [heq] at hrequeue
      exact hrequeue.takeNext.dispatchNext _ _

theorem wakeBlockedTask (h : SameBlocks s m) (task : Option TaskPtr) :
    SameBlocks s (wakeBlockedTask cfg m task).2 := by
  cases task with
  | none => exact h
  | some p =>
    rw [Sched.wakeBlockedTask]
    dsimp only
    split_ifs
    · have hready : SameBlocks s
          (m.setTask p { m.heap p with state := .ready, wakeupTick := 0, next := none }) :=
        ⟨h.live, h.taskIdCounter, h.ticks⟩
      have henq := fun cpu => hready.enqueueOn cfg cpu p
      split
      · rename_i woken heq
        rw [← heq]
        exact henq _
      · rename_i refused heq
        have hsame : SameBlocks s (false, refused).2 := heq ▸ henq _
        exact ⟨hsame.live, hsame.taskIdCounter, hsame.ticks⟩
    · exact h

/-- Every section but `create_task` works with the control blocks there are, and only the tick of
the timer moves the clock. -/
theorem perform (hop : ∀ args, op ≠ .createTask args) (htick : op ≠ .tick)
    (hp : perform cfg s op = some s') : SameBlocks s s' := by
  cases op with
  | createTask args => exact absurd rfl (hop args)
  | delay ticks =>
    simp only [Sched.perform, Sched.delay, Option.ite_none_right_eq_some, Option.some.injEq] at hp
    rw [← hp.2]
    split
    · exact refl s
    · exact ⟨rfl, rfl, rfl⟩
  | block =>
    simp only [Sched.perform, blockCurrentTaskIrqDisabled, Option.ite_none_right_eq_some,
      Option.some.injEq] at hp
    rw [← hp.2]
    split
    · exact refl s
    · split_ifs
      · exact ⟨rfl, rfl, rfl⟩
      · exact refl s
  | wake task =>
    simp only [Sched.perform, Option.ite_none_right_eq_some, Option.some.injEq] at hp
    exact hp.2 ▸ (refl s).wakeBlockedTask task
  | tick => exact absurd rfl htick
  | tickUpdate => exact (refl s).tickLoop hp
  | schedule => exact Option.some.inj hp ▸ (refl s).scheduleCpuLocked
  | scheduleIfPreemptPending =>
    simp only [Sched.perform, scheduleIfPreemptPending, Option.some.injEq] at hp
    rw [← hp]
    split_ifs
    · exact (refl s).scheduleCpuLocked
    · exact ⟨rfl, rfl, rfl⟩
  | terminate =>
    simp only [Sched.perform, terminateCurrent, Option.ite_none_right_eq_some,
      Option.some.injEq] at hp
    rw [← hp.2]
    split
    · exact refl s
    · exact scheduleCpuLocked ⟨rfl, rfl, rfl⟩

end SameBlocks

theorem ticks_createTaskOnCpu {cfg : Config} {s s' : State} {args : TaskArgs} {cpu : ℕ} {id : TaskId}
    (h : createTaskOnCpu cfg s args cpu = some (id, s')) : s'.ticks = s.ticks := by
  unfold createTaskOnCpu at h
  dsimp only at h
  split at h
  · cases h
  · rename_i p pool _
    have henq := fun m : State => ((SameBlocks.refl m).enqueueOn cfg (cpu % cfg.maxCpus) p).ticks
    specialize henq ((s.withBlock pool).setTask p
      { (s.withBlock pool).heap p with id := s.taskIdCounter })
    generalize enqueueOn cfg _ _ p = r at h henq
    split_ifs at h
    all_goals exact (congrArg (fun q => q.2.ticks) (Option.some.inj h)).symm.trans henq

theorem ticks_perform {cfg : Config} {s s' : State} {op : Op} (htick : op ≠ .tick)
    (hp : perform cfg s op = some s') : s'.ticks = s.ticks := by
  by_cases hop : ∃ args, op = .createTask args
  · obtain ⟨args, rfl⟩ := hop
    simp only [perform, Option.map_eq_some_iff] at hp
    obtain ⟨⟨id, d⟩, hc, rfl⟩ := hp
    exact ticks_createTaskOnCpu hc
  · exact (SameBlocks.perform (fun args hargs => hop ⟨args, hargs⟩) htick hp).ticks

def IdsBelow (s : State) : Prop := ∀ p, s.IsTask p → (s.heap p).id < s.taskIdCounter

variable {cfg : Config} {s s' : State} {run : Option TaskPtr} {rq : ℕ → List TaskPtr}
  {sl fl : List TaskPtr} {p : TaskPtr} {op : Op} {cpu : ℕ} {args : TaskArgs} {id : TaskId}

/-- The new task has the id that the counter showed, and the counter moves on. -/
theorem IdsBelow.createTaskOnCpu (hids : IdsBelow s) (h : Placed cfg s run rq sl fl none)
    (hcpu : cfg.maxCpus = 1) (hc : createTaskOnCpu cfg s args cpu = some (id, s')) :
    IdsBelow s' := by
  obtain ⟨p, rest, rfl, -, hid, hpid, -, hs', he⟩ := h.createTaskOnCpu hcpu hc
  have hcounter : s'.taskIdCounter.toNat = s.taskIdCounter.toNat + 1 := by
    have hids := h.ids
    have hids' := hs'.ids
    rw [List.length_cons] at hids
    omega
  intro a ha
  rw [UInt32.lt_iff_toNat_lt, hcounter]
  by_cases hap : a = p
  · rw [hap, hpid, hid]
    exact Nat.lt_succ_self _
  · have hlive : s.IsTask a := by
      have hrest : a ∉ rest := by
        intro hmem
        have hdead := ((hs'.pool.mem_iff a).mp hmem).2
        rw [State.IsTask, hdead] at ha
        cases ha
      have hfree : a ∉ p :: rest := by simp [hap, hrest]
      rw [h.pool.mem_iff] at hfree
      have hlt := hs'.pool.live_lt a ha
      simpa [State.IsTask, hlt] using hfree
    rw [he.id a hlive]
    exact Nat.lt_succ_of_lt (UInt32.lt_iff_toNat_lt.mp (hids a hlive))

theorem IdsBelow.perform (hids : IdsBelow s) (h : Placed cfg s run rq sl fl none)
    (hcpu : cfg.maxCpus = 1) (hperf : Performed op s s') (hp : perform cfg s op = some s') :
    IdsBelow s' := by
  by_cases hop : ∃ args, op = .createTask args
  · obtain ⟨args, rfl⟩ := hop
    simp only [Sched.perform, Option.map_eq_some_iff] at hp
    obtain ⟨⟨id, d⟩, hc, rfl⟩ := hp
    exact hids.createTaskOnCpu h hcpu hc
  · intro a ha
    by_cases htick : op = .tick
    · subst htick
      cases hp
      exact hids a ha
    have hsame := SameBlocks.perform (fun args hargs => hop ⟨args, hargs⟩) htick hp
    have hlive : s.IsTask a := by rwa [State.IsTask, hsame.live] at ha
    rw [hsame.taskIdCounter, hperf.id a hlive]
    exact hids a hlive

structure Accounted (cfg : Config) (s : State) : Prop where
  placed : ∃ run rq sl fl, Placed cfg s run rq sl fl none
  ids : IdsBelow s

theorem Accounted.init (cfg : Config) (uninit : Heap) : Accounted cfg (init cfg uninit) :=
  ⟨⟨_, _, _, _, init_placed cfg uninit⟩, fun p hp => by simp [State.IsTask, Sched.init,
    Mm.Slab.new] at hp⟩

theorem Accounted.createTaskOnCpu (h : Accounted cfg s) (hcpu : cfg.maxCpus = 1)
    (hc : createTaskOnCpu cfg s args cpu = some (id, s')) : Accounted cfg s' := by
  obtain ⟨run, rq, sl, fl, hplaced⟩ := h.placed
  obtain ⟨p, rest, -, -, -, -, -, hs', -⟩ := hplaced.createTaskOnCpu hcpu hc
  exact ⟨⟨run, _, sl, rest, hs'⟩, h.ids.createTaskOnCpu hplaced hcpu hc⟩

theorem Accounted.initSystemTasks (hcpu : cfg.maxCpus = 1) {idle root : TaskArgs} {uninit : Heap}
    (h : initSystemTasks cfg idle root (Sched.init cfg uninit) = some s) : Accounted cfg s := by
  obtain ⟨rq, fl, hplaced, -⟩ := initSystemTasks_placed hcpu h
  refine ⟨⟨_, _, _, _, hplaced⟩, ?_⟩
  simp only [Sched.initSystemTasks, hcpu, List.range_one, createIdleTasks] at h
  split at h
  · simp at h
  rename_i b hb
  split at hb
  · simp at hb
  rename_i id d hd
  have hidle := (Accounted.init cfg uninit).createTaskOnCpu hcpu hd
  have hb : Accounted cfg b := by
    obtain ⟨run, rq, sl, fl, hplaced⟩ := hidle.placed
    rw [← Option.some.inj hb]
    refine ⟨⟨run, rq, sl, fl, hplaced.of_eq rfl ?_ rfl rfl hplaced.current_task
      hplaced.next_task⟩, hidle.ids⟩
    simp [State.setCpu]
  split at h
  · simp at h
  rename_i rid r hr
  rw [← Option.some.inj h]
  exact (hb.createTaskOnCpu hcpu hr).ids

theorem Accounted.createTask (h : Accounted cfg s) (hcpu : cfg.maxCpus = 1)
    (hleft : s.taskIdCounter.toNat < cfg.taskCap) (args : TaskArgs) :
    ∃ id s', createTask cfg s args = some (id, s') ∧ id ≠ taskIdInvalid ∧
      ∀ p, s.IsTask p → (s.heap p).id ≠ id := by
  obtain ⟨run, rq, sl, fl, hplaced⟩ := h.placed
  have hfl : fl ≠ [] := by
    rintro rfl
    have hids := hplaced.ids
    rw [List.length_nil] at hids
    omega
  have hsome : Sched.createTask cfg s args ≠ none := by
    unfold Sched.createTask Sched.createTaskOnCpu
    dsimp only
    split
    · rename_i hnone
      exact absurd (hplaced.pool.alloc_eq_none.mp hnone) hfl
    · split_ifs <;> simp
  obtain ⟨⟨id, s'⟩, hc⟩ := Option.ne_none_iff_exists'.mp hsome
  obtain ⟨p, rest, -, -, hid, -⟩ := hplaced.createTaskOnCpu hcpu hc
  refine ⟨id, s', hc, ?_, ?_⟩
  · rintro rfl
    have hcap := cfg.taskCap_lt
    rw [← hid] at hleft
    simp [taskIdInvalid] at hleft
    omega
  · intro p hp heq
    have hlt := h.ids p hp
    rw [heq, hid] at hlt
    exact UInt32.lt_irrefl _ hlt

theorem Accounted.createTask_panics (h : Accounted cfg s)
    (hfull : ¬ s.taskIdCounter.toNat < cfg.taskCap) (args : TaskArgs) :
    Sched.createTask cfg s args = none ∧ ∀ p < cfg.taskCap, s.IsTask p := by
  obtain ⟨run, rq, sl, fl, hplaced⟩ := h.placed
  have hfl : fl = [] := by
    have hids := hplaced.ids
    exact List.length_eq_zero_iff.mp (by omega)
  subst hfl
  constructor
  · unfold Sched.createTask Sched.createTaskOnCpu
    dsimp only
    rw [hplaced.pool.alloc_eq_none.mpr rfl]
  · intro p hp
    have hmem := hplaced.pool.mem_iff p
    simpa [hp, State.IsTask] using hmem

theorem State.notTerminated_lt_iff :
    s.notTerminated cfg < cfg.taskCap ↔
      ∃ p < cfg.taskCap, s.IsTask p → (s.heap p).state = .terminated := by
  have hle : s.notTerminated cfg ≤ cfg.taskCap := by
    simpa [State.notTerminated] using
      List.countP_le_length (l := List.range cfg.taskCap)
        (p := fun p => s.IsTask p ∧ (s.heap p).state ≠ .terminated)
  have hall : s.notTerminated cfg = cfg.taskCap ↔
      ∀ p < cfg.taskCap, s.IsTask p ∧ (s.heap p).state ≠ .terminated := by
    have heq := List.countP_eq_length (l := List.range cfg.taskCap)
      (p := fun p => decide (s.IsTask p ∧ (s.heap p).state ≠ .terminated))
    simpa only [State.notTerminated, List.length_range, List.mem_range, decide_eq_true_iff]
      using heq
  rw [hle.lt_iff_ne, Ne, hall]
  push Not
  rfl

theorem Accounted.slotsReclaimed_iff (h : Accounted cfg s) (hcpu : cfg.maxCpus = 1) :
    SlotsReclaimed cfg s ↔ s.taskIdCounter.toNat < cfg.taskCap ∨
      ∀ p, s.IsTask p → (s.heap p).state ≠ .terminated := by
  by_cases hleft : s.taskIdCounter.toNat < cfg.taskCap
  · simp only [hleft, true_or, iff_true]
    exact fun _ => h.createTask hcpu hleft
  · obtain ⟨run, rq, sl, fl, hplaced⟩ := h.placed
    have hfull := h.createTask_panics hleft
    simp only [hleft, false_or]
    constructor
    · intro hslots p hp hterm
      have hlt := State.notTerminated_lt_iff.mpr ⟨p, hplaced.pool.live_lt p hp, fun _ => hterm⟩
      obtain ⟨id, s', hc, -⟩ := hslots hlt ⟨0, 0, 0, 0, ""⟩
      rw [(hfull _).1] at hc
      cases hc
    · intro hnone hlt
      obtain ⟨p, hp, hterm⟩ := State.notTerminated_lt_iff.mp hlt
      have htask := (hfull ⟨0, 0, 0, 0, ""⟩).2 p hp
      exact absurd (hterm htask) (hnone p htask)

theorem CortexM.idsBelow_step {c c' : CortexM.Core} {act : CortexM.Act} (hids : IdsBelow c.sched)
    (h : CortexM.Consistent cfg c) (hcpu : cfg.maxCpus = 1) (hok : CortexM.DecidesSettled c act)
    (hstep : CortexM.step cfg c act = some c') : IdsBelow c'.sched := by
  cases act with
  | op op =>
    obtain ⟨s', hp, rfl⟩ := Option.map_eq_some_iff.mp hstep
    obtain ⟨rq, sl, fl, hplaced⟩ := h.placed
    obtain ⟨rq', sl', fl', -, hperf⟩ := hplaced.perform hcpu hok hp
    exact hids.perform hplaced hcpu hperf hp
  | pendsv =>
    simp only [CortexM.step, Option.ite_none_right_eq_some, Option.some.injEq] at hstep
    rw [← hstep.2]
    unfold CortexM.pendsvHandler
    split_ifs
    · exact hids
    · exact hids

theorem CortexM.idsBelow_boot (hcpu : cfg.maxCpus = 1) {idle root : TaskArgs} {uninit : Heap}
    {c : CortexM.Core} (h : CortexM.boot cfg idle root uninit = some c) : IdsBelow c.sched := by
  obtain ⟨s, hs, rfl⟩ := Option.map_eq_some_iff.mp h
  obtain ⟨rq, fl, hplaced, -, hcur, -⟩ := initSystemTasks_placed hcpu hs
  have hids := (Accounted.initSystemTasks hcpu hs).ids
  have hplaced : Placed cfg s s.currentTcb rq [] fl none := hcur ▸ hplaced
  have hp : perform cfg s .schedule = some (schedule cfg s).2 := rfl
  obtain ⟨-, -, -, -, hperf⟩ := hplaced.perform hcpu (fun _ => rfl) hp
  have hids' := hids.perform hplaced hcpu hperf hp
  exact hids'

/-- A state that the RISC-V port reaches, or the Cortex-M port in a run that decides only when the
last decision has been carried out. -/
inductive SystemState (cfg : Config) : State → Prop where
  | riscv {s : State} (reachable : Riscv.Reachable cfg s) : SystemState cfg s
  | cortexM {idle root : TaskArgs} {uninit : Heap} {c c' : CortexM.Core} {acts : List CortexM.Act}
      (boot : CortexM.boot cfg idle root uninit = some c)
      (settled : Along (CortexM.step cfg) CortexM.DecidesSettled c acts)
      (run : Lib.run (CortexM.step cfg) c acts = some c') : SystemState cfg c'.sched

theorem SystemState.accounted (hs : SystemState cfg s) (hcpu : cfg.maxCpus = 1) :
    Accounted cfg s := by
  cases hs with
  | riscv reachable =>
    suffices h : Riscv.AllPlaced cfg s ∧ IdsBelow s by
      obtain ⟨⟨rq, sl, fl, hplaced⟩, hids⟩ := h
      exact ⟨⟨_, _, _, _, hplaced⟩, hids⟩
    apply reachable.induction
    · intro idle root uninit s₀ hinit
      obtain ⟨rq, fl, hplaced, -, hcur, -⟩ := initSystemTasks_placed hcpu hinit
      exact ⟨⟨rq, [], fl, hcur ▸ hplaced⟩, (Accounted.initSystemTasks hcpu hinit).ids⟩
    · rintro s op s' ⟨hall, hids⟩ hstep
      obtain ⟨hall', m, hm, hperf, rfl⟩ := hall.step hcpu hstep
      obtain ⟨rq, sl, fl, hplaced⟩ := hall
      have hids' := hids.perform hplaced hcpu hperf hm
      refine ⟨hall', ?_⟩
      split_ifs
      · exact hids'
      · exact hids'
  | cortexM boot settled run =>
    have halways := settled.always (P := fun c => CortexM.Consistent cfg c ∧ IdsBelow c.sched)
      (fun c act c' h hok hstep =>
        ⟨h.1.step hcpu hok hstep, CortexM.idsBelow_step h.2 h.1 hcpu hok hstep⟩)
      ⟨CortexM.boot_consistent hcpu boot, CortexM.idsBelow_boot hcpu boot⟩
    obtain ⟨hconsistent, hids⟩ := halways.last run
    obtain ⟨rq, sl, fl, hplaced⟩ := hconsistent.placed
    exact ⟨⟨_, _, _, _, hplaced⟩, hids⟩

/-- While fewer than `TASK_CAP` tasks are not terminated a task can be created, exactly if fewer
than `TASK_CAP` tasks were created before or none of them has terminated. -/
theorem slots_reclaimed_iff (cfg : Config) (hcpu : cfg.maxCpus = 1) (s : State)
    (hs : SystemState cfg s) :
    SlotsReclaimed cfg s ↔ s.taskIdCounter.toNat < cfg.taskCap ∨
      ∀ p, s.IsTask p → (s.heap p).state ≠ .terminated :=
  (hs.accounted hcpu).slotsReclaimed_iff hcpu

/-- After the system tasks, two more tasks are created and one of them terminates. -/
def terminating : List Op :=
  [.schedule, .createTask (.ofPriority 2), .schedule, .terminate, .createTask (.ofPriority 2)]

/-- Three of the four blocks belong to tasks that have not terminated, and `create_task` panics. -/
theorem terminated_block_is_not_reused :
    ∃ s, SystemState .small s ∧ s.notTerminated .small = 3 ∧
      createTask .small s (.ofPriority 2) = none ∧ ¬ SlotsReclaimed .small s := by
  have htest : (Riscv.system .small (.ofPriority 0) (.ofPriority 1) .blank terminating).any
      (fun s => decide (s.notTerminated .small = 3 ∧
        (createTask .small s (.ofPriority 2)).isNone = true)) = true := by
    decide +kernel
  obtain ⟨s, hs, hfacts⟩ := (Option.any_eq_true _ _).mp htest
  obtain ⟨hcount, hnone⟩ := of_decide_eq_true hfacts
  have hpanic : createTask .small s (.ofPriority 2) = none := Option.isNone_iff_eq_none.mp hnone
  refine ⟨s, .riscv ⟨_, _, _, _, hs⟩, hcount, hpanic, ?_⟩
  intro hslots
  obtain ⟨id, s', hc, -⟩ := hslots (by rw [hcount]; decide) (.ofPriority 2)
  rw [hpanic] at hc
  cases hc

theorem fourth_task_gets_block :
    ∃ s, SystemState .small s ∧ s.taskIdCounter.toNat = 3 ∧ SlotsReclaimed .small s := by
  have htest : (Riscv.system .small (.ofPriority 0) (.ofPriority 1) .blank
      (terminating.take 4)).any (fun s => decide (s.taskIdCounter.toNat = 3)) = true := by
    decide +kernel
  obtain ⟨s, hs, hfacts⟩ := (Option.any_eq_true _ _).mp htest
  have hcounter := of_decide_eq_true hfacts
  have hstate : SystemState .small s := .riscv ⟨_, _, _, _, hs⟩
  refine ⟨s, hstate, hcounter, (slots_reclaimed_iff .small rfl s hstate).mpr (.inl ?_)⟩
  rw [hcounter]
  decide

end OpenIon.Sched
