import OpenIon.Sched.Placement.Enqueue

/-! # Scheduling decisions

A decision puts a running current task back at the end of its list and runs the
first task of the highest list, or keeps the current task when no ready task
reaches its priority or none is ready.
-/
namespace OpenIon.Sched
open Lib

variable {cfg : Config} {s s' m : State} {run : Option TaskPtr} {rq : ℕ → List TaskPtr}
  {sl fl : List TaskPtr} {p : TaskPtr}

def requeued (s : State) (rq : ℕ → List TaskPtr) : ℕ → List TaskPtr :=
  match s.currentTcb with
  | none => rq
  | some c => if s.isRunning c then pushed s.heap rq c else rq

/-- The tasks that a decision may start or stop. -/
def State.runnable (s : State) : Set TaskPtr :=
  {a | (s.heap a).state = .ready ∨ (s.heap a).state = .running}

/-- From `s` to `s'` a decision kept the current task, whatever its state. -/
structure Kept (s s' : State) : Prop where
  pool : s'.pool = s.pool
  currentTcb : s'.currentTcb = s.currentTcb
  nextTcb : s'.nextTcb = s.currentTcb
  ticks : s'.ticks = s.ticks
  readyQueue : (s'.cpuScheds 0).readyQueue = (s.cpuScheds 0).readyQueue
  idleTask : (s'.cpuScheds 0).idleTask = (s.cpuScheds 0).idleTask
  taskIdCounter : s'.taskIdCounter = s.taskIdCounter
  sleepQueue : s'.sleepQueue = s.sleepQueue

/-- From `s` to `s'` a decision chose the ready or current task `p`. -/
structure Dispatched (s s' : State) (p : TaskPtr) : Prop extends Frame s s' s.runnable where
  isTask : s.IsTask p
  running : (s'.heap p).state = .running
  runnable : ∀ a ∈ s.runnable, s.IsTask a → a ∈ s'.runnable
  currentTcb : s'.currentTcb = s.currentTcb
  nextTcb : s'.nextTcb = some p
  ticks : s'.ticks = s.ticks

theorem Kept.frame (h : Kept s s') : Frame s s' ∅ := Frame.of_heap_eq h.pool h.idleTask

theorem Placed.kept (h : Placed cfg s run rq sl fl none) (hk : Kept s s') :
    Placed cfg s' run rq sl fl none := by
  apply h.of_eq hk.pool hk.readyQueue hk.sleepQueue hk.taskIdCounter
  · rw [hk.currentTcb]
    exact h.current_task
  · rw [hk.nextTcb]
    exact h.current_task

section Stopped

variable (hstop : ∀ a, s.currentTcb = some a → (s.heap a).state ≠ .running)
include hstop

theorem currentRunningPriority_of_stopped : currentRunningPriority s = none := by
  cases hc : s.currentTcb with
  | none => simp [currentRunningPriority, hc]
  | some a => simp [currentRunningPriority, hc, State.isRunning, hstop a hc]

theorem requeueCurrent_of_stopped (cpu : ℕ) : requeueCurrent cfg s cpu = (true, s) := by
  cases hc : s.currentTcb with
  | none => simp [requeueCurrent, hc]
  | some a => simp [requeueCurrent, hc, State.isRunning, hstop a hc]

theorem schedule_of_stopped (cpu : ℕ) :
    scheduleCpuLocked cfg s cpu = dispatchNext (takeNext cfg (s.setPreemptPending cpu false) cpu).2 cpu
      none (takeNext cfg (s.setPreemptPending cpu false) cpu).1 := by
  have hpriority : currentRunningPriority (s.setPreemptPending cpu false) = none :=
    currentRunningPriority_of_stopped hstop
  have hreq : requeueCurrent cfg (s.setPreemptPending cpu false) cpu = (true, _) :=
    requeueCurrent_of_stopped (s := s.setPreemptPending cpu false) hstop cpu
  simp only [scheduleCpuLocked, hpriority, Option.any_none, Bool.false_eq_true, if_false, hreq]

theorem requeued_of_stopped : requeued s rq = rq := by
  cases hc : s.currentTcb with
  | none => simp [requeued, hc]
  | some a => simp [requeued, hc, State.isRunning, hstop a hc]

end Stopped

section Running

variable {c : TaskPtr} (hc : s.currentTcb = some c) (hr : (s.heap c).state = .running)
include hc hr

theorem requeueCurrent_of_running {q : ReadyQueue} {h' : Heap}
    (hpush : ((s.setTask c { s.heap c with state := .ready }).cpuScheds 0).readyQueue.push
      cfg.taskCap (s.setTask c { s.heap c with state := .ready }).heap c = (true, q, h')) :
    requeueCurrent cfg s 0 =
      (true, (s.setTask c { s.heap c with state := .ready }).setReadyQueue 0 q h') := by
  simp only [requeueCurrent, hc, State.isRunning, hr, decide_true, if_true]
  rw [hpush]

theorem requeued_of_running : requeued s rq = pushed s.heap rq c := by
  simp [requeued, hc, State.isRunning, hr]

end Running

/-- A running current task always goes back to the ready queue; then nobody runs. -/
theorem Placed.requeueCurrent (h : Placed cfg s s.currentTcb rq sl fl none) :
    ∃ m, requeueCurrent cfg s 0 = (true, m) ∧
      Placed cfg m none (requeued s rq) sl fl none ∧
      Frame s m {a | s.currentTcb = some a ∧ (s.heap a).state = .running} ∧
      (∀ a, s.currentTcb = some a → (s.heap a).state = .running → (m.heap a).state = .ready) ∧
      m.currentTcb = s.currentTcb ∧ m.ticks = s.ticks := by
  by_cases hstop : ∀ a, s.currentTcb = some a → (s.heap a).state ≠ .running
  · refine ⟨s, requeueCurrent_of_stopped hstop 0, ?_, Frame.of_heap_eq rfl rfl,
      fun a ha hr => absurd hr (hstop a ha), rfl, rfl⟩
    rw [requeued_of_stopped hstop]
    exact h.rename_run (fun a ha _ _ => hstop a ha) none
  · push Not at hstop
    rcases hstop with ⟨c, hc, hr⟩
    have htask := h.current_task c hc
    have hplace := h.inPlace htask
    rw [Place, hr] at hplace
    have hout := ((h.takeOff htask hplace.2.2 (by simp [hr])).modify
      (t := { s.heap c with state := .ready }) hplace.2.2 (h.priority c htask)).rename_run
      (fun a ha _ hne => absurd (hc.symm.trans ha) hne) none
    rcases hout.putReady (by simp) (by simpa using hplace.2.1) with ⟨q, h', hpush, hplaced, hf⟩
    refine ⟨_, requeueCurrent_of_running hc hr hpush, ?_, ?_, ?_, rfl, rfl⟩
    · rw [requeued_of_running hc hr]
      simpa [pushed] using hplaced
    · have hset : Frame s (s.setTask c { s.heap c with state := .ready }) {c} :=
        Frame.setTask rfl rfl
      apply (hset.trans (Frame.of_push hf)).mono
      rintro a rfl
      exact ⟨hc, hr⟩
    · intro a ha _
      rw [← Option.some.inj (hc.symm.trans ha), State.heap_setReadyQueue, hf.self]
      simp

theorem Placed.takeNext_empty (h : Placed cfg s run rq sl fl none) (hcpu : cfg.maxCpus = 1)
    (hnil : members rq = []) : takeNext cfg s 0 = (none, s) := by
  have hpop := ReadyQueue.popHighest_empty h.ready hnil
  simp [Sched.takeNext, hpop, hcpu]

theorem Placed.takeNext (h : Placed cfg s run rq sl fl none) (hne : members rq ≠ []) :
    ∃ p rq' m, p ∈ members rq ∧ (∀ a ∈ members rq, (s.heap a).priority ≤ (s.heap p).priority) ∧
      takeNext cfg s 0 = (some p, m) ∧ Placed cfg m run rq' sl fl (some p) ∧ Frame s m {p} ∧
      (m.heap p).next = none ∧ m.currentTcb = s.currentTcb ∧ m.ticks = s.ticks := by
  rcases h.takeReady hne with ⟨i, p, l, q, hi, hl, hmax, -, hpop, hplaced⟩
  have hp : p ∈ rq i := hl ▸ List.mem_cons_self
  rw [← h.ready.priority i hi p hp] at hmax
  refine ⟨p, _, _, mem_members.mpr ⟨i, hi, hp⟩, hmax, ?_, hplaced, ?_, ?_, rfl, rfl⟩
  · simp only [Sched.takeNext, hpop]
  · have hset : Frame s (s.setTask p { s.heap p with next := none, queued := false }) {p} :=
      Frame.setTask rfl rfl
    apply hset.trans
    apply Frame.of_heap_eq
    · rfl
    · simp [State.setReadyQueue, State.setTask, State.setCpu, State.setHeap]
  · simp

/-- The chosen task runs and is the next one, and apart from the counters nothing else changes. -/
theorem dispatchNext_some (s : State) (cpu : ℕ) (currentPriority : Option ℕ) (p : TaskPtr) :
    ∃ cpuScheds, dispatchNext s cpu currentPriority (some p) = (decide (s.currentTcb ≠ some p),
        { (s.setTask p { s.heap p with state := .running, cpuId := UInt32.ofNat cpu }).setNextTaskPtr
          (some p) with cpuScheds := cpuScheds }) ∧
      ∀ i, (cpuScheds i).readyQueue = (s.cpuScheds i).readyQueue ∧
        (cpuScheds i).idleTask = (s.cpuScheds i).idleTask := by
  by_cases hc : s.currentTcb = some p
  · refine ⟨s.cpuScheds, ?_, fun _ => ⟨rfl, rfl⟩⟩
    rw [dispatchNext, decide_eq_false (not_not.mpr hc)]
    exact if_neg (not_not.mpr hc)
  · let d := (s.setTask p { s.heap p with state := .running, cpuId := UInt32.ofNat cpu }).setNextTaskPtr
      (some p)
    refine ⟨(countSwitch d cpu currentPriority (d.heap p).priority).cpuScheds, ?_, fun i => ?_⟩
    · rw [dispatchNext, decide_eq_true hc]
      exact if_pos hc
    · change (Function.update s.cpuScheds cpu _ i).readyQueue = _ ∧
        (Function.update s.cpuScheds cpu _ i).idleTask = _
      by_cases hi : i = cpu
      · rw [hi, Function.update_self]
        exact ⟨rfl, rfl⟩
      · rw [Function.update_of_ne hi]
        exact ⟨rfl, rfl⟩

theorem Placed.dispatchOut (h : Placed cfg s run rq sl fl (some p)) (currentPriority : Option ℕ) :
    ∃ m, dispatchNext s 0 currentPriority (some p) = (decide (s.currentTcb ≠ some p), m) ∧
      Placed cfg m run rq sl fl (some p) ∧ Frame s m {p} ∧
      m.heap p = { s.heap p with state := .running, cpuId := 0 } ∧
      m.currentTcb = s.currentTcb ∧ m.nextTcb = some p ∧ m.ticks = s.ticks := by
  have hp := h.taken p rfl
  have hset : Frame s (s.setTask p { s.heap p with state := .running, cpuId := UInt32.ofNat 0 })
      {p} := Frame.setTask rfl rfl
  have hmod := h.modify (t := { s.heap p with state := .running, cpuId := UInt32.ofNat 0 }) hp.2
    (h.priority p hp.1)
  obtain ⟨cpuScheds, hdisp, hcpus⟩ := dispatchNext_some s 0 currentPriority p
  refine ⟨_, hdisp, ?_, hset.trans (Frame.of_heap_eq rfl (hcpus 0).2), Heap.set_self .., rfl, rfl,
    rfl⟩
  refine hmod.of_eq rfl (hcpus 0).1 rfl rfl h.current_task ?_
  rintro a ⟨⟩
  exact hp.1

/-- With nobody running, an unlinked task that is out becomes the running one. -/
theorem Placed.dispatchNext (h : Placed cfg s none rq sl fl (some p))
    (hn : (s.heap p).next = none) (currentPriority : Option ℕ) :
    ∃ m, dispatchNext s 0 currentPriority (some p) = (decide (s.currentTcb ≠ some p), m) ∧
      Placed cfg m (some p) rq sl fl none ∧ Frame s m {p} ∧ (m.heap p).state = .running ∧
      m.currentTcb = s.currentTcb ∧ m.nextTcb = some p ∧ m.ticks = s.ticks := by
  rcases h.dispatchOut currentPriority with ⟨m, heq, hm, hf, hself, hrest⟩
  refine ⟨m, heq, ?_, hf, by rw [hself], hrest⟩
  apply (hm.rename_run (by simp) (some p)).putOff
  rw [Place, hself]
  exact ⟨rfl, hn, (h.taken p rfl).2⟩

/-- The current task runs, and no ready task reaches its priority. -/
def OnTop (s : State) (rq : ℕ → List TaskPtr) : Prop :=
  ∃ c, s.currentTcb = some c ∧ (s.heap c).state = .running ∧
    ∀ a ∈ members rq, (s.heap a).priority < (s.heap c).priority

theorem mem_members_requeued
    (hprio : ∀ c, s.currentTcb = some c → (s.heap c).state = .running →
      (s.heap c).priority < maxPriorities) {a : TaskPtr} :
    a ∈ members (requeued s rq) ↔
      a ∈ members rq ∨ s.currentTcb = some a ∧ (s.heap a).state = .running := by
  by_cases hstop : ∀ a, s.currentTcb = some a → (s.heap a).state ≠ .running
  · rw [requeued_of_stopped hstop]
    exact ⟨.inl, fun h => h.resolve_right fun hr => hstop a hr.1 hr.2⟩
  · push Not at hstop
    rcases hstop with ⟨c, hc, hr⟩
    rw [requeued_of_running hc hr, pushed, mem_members_append rq (hprio c hc hr)]
    refine or_congr_right ⟨?_, fun h => Option.some.inj (h.1.symm.trans hc)⟩
    rintro rfl
    exact ⟨hc, hr⟩

theorem Placed.mem_requeued (h : Placed cfg s run rq sl fl none) {a : TaskPtr} :
    a ∈ members (requeued s rq) ↔
      a ∈ members rq ∨ s.currentTcb = some a ∧ (s.heap a).state = .running :=
  mem_members_requeued fun c hc _ => h.priority c (h.current_task c hc)

/-! ## The branches of a decision -/

section Branches

variable {cpu : ℕ} (w : (s.cpuScheds cpu).readyQueue.Wf s.heap rq)
include w

theorem ReadyQueue.Wf.early_exit_iff :
    ((currentRunningPriority s).any fun priority => (s.cpuScheds cpu).readyQueue.isEmpty ||
      decide ((s.cpuScheds cpu).readyQueue.peekHighestPriority < priority)) = true ↔
    OnTop s rq := by
  cases hc : s.currentTcb with
  | none => simp [currentRunningPriority, OnTop, hc]
  | some c =>
    by_cases hr : (s.heap c).state = .running
    · have hcur : currentRunningPriority s = some (s.heap c).priority := by
        simp [currentRunningPriority, hc, State.isRunning, hr]
      rw [hcur, Option.any_some, Bool.or_eq_true, w.isEmpty_iff, decide_eq_true_iff]
      by_cases hne : members rq = []
      · simp [OnTop, hne, hc, hr]
      · rcases w.popHighest hne with ⟨i, p, l, q, hi, hl, hmax, hpeek, -, -⟩
        have hp : p ∈ rq i := hl ▸ List.mem_cons_self
        have hprio := w.priority i hi p hp
        rw [hpeek]
        constructor
        · intro hlt
          refine ⟨c, hc, hr, ?_⟩
          intro a ha
          have hle := hmax a ha
          have hlt := hlt.resolve_left hne
          omega
        · rintro ⟨c', hc', -, hall⟩
          obtain rfl : c = c' := Option.some.inj (hc.symm.trans hc')
          have hlt := hall p (mem_members.mpr ⟨i, hi, hp⟩)
          omega
    · simp [currentRunningPriority, OnTop, hc, State.isRunning, hr]

theorem ReadyQueue.Wf.schedule_onTop (h : OnTop s rq) :
    scheduleCpuLocked cfg s cpu = (false, (s.setPreemptPending cpu false).keepCurrentTask) := by
  rw [scheduleCpuLocked]
  simp only [State.readyQueue_setPreemptPending]
  exact if_pos (w.early_exit_iff.mpr h)

theorem ReadyQueue.Wf.schedule_rest (h : ¬ OnTop s rq)
    (hreq : requeueCurrent cfg (s.setPreemptPending cpu false) cpu = (true, m)) :
    scheduleCpuLocked cfg s cpu = dispatchNext (takeNext cfg m cpu).2 cpu (currentRunningPriority s)
      (takeNext cfg m cpu).1 := by
  rw [scheduleCpuLocked]
  simp only [State.readyQueue_setPreemptPending]
  refine (if_neg fun he => h (w.early_exit_iff.mp he)).trans ?_
  simp only [hreq]
  rfl

end Branches

theorem ReadyQueue.Wf.schedule_empty (w : (s.cpuScheds 0).readyQueue.Wf s.heap rq)
    (hcpu : cfg.maxCpus = 1) (hnil : members rq = [])
    (hstop : ∀ a, s.currentTcb = some a → (s.heap a).state ≠ .running) :
    scheduleCpuLocked cfg s 0 = (false, (s.setPreemptPending 0 false).keepCurrentTask) := by
  have hpop := ReadyQueue.popHighest_empty w hnil
  have htake : takeNext cfg (s.setPreemptPending 0 false) 0 = (none, s.setPreemptPending 0 false) := by
    simp [takeNext, hpop, hcpu]
  rw [schedule_of_stopped hstop, htake]
  rfl

theorem kept_of_no_preemption : Kept s ((s.setPreemptPending 0 false).keepCurrentTask) := by
  refine ⟨rfl, rfl, rfl, rfl, State.readyQueue_setPreemptPending, ?_, rfl, rfl⟩
  simp [State.keepCurrentTask, State.setNextTaskPtr, State.setPreemptPending, State.setCpu]

/-- A decision keeps the current task, since none is as high or none is ready, or goes on to choose
one from the queue with the current one put back. -/
theorem ReadyQueue.Wf.schedule_cases (w : (s.cpuScheds 0).readyQueue.Wf s.heap rq)
    (hcpu : cfg.maxCpus = 1) (hprio : ∀ c, s.currentTcb = some c → (s.heap c).state = .running →
      (s.heap c).priority < maxPriorities) :
    (∃ s', scheduleCpuLocked cfg s 0 = (false, s') ∧ Kept s s' ∧
      (OnTop s rq ∨ members (requeued s rq) = [] ∧ members rq = [])) ∨
    (¬ OnTop s rq ∧ members (requeued s rq) ≠ [] ∧
      ∀ m, requeueCurrent cfg (s.setPreemptPending 0 false) 0 = (true, m) →
        scheduleCpuLocked cfg s 0 = dispatchNext (takeNext cfg m 0).2 0 (currentRunningPriority s)
          (takeNext cfg m 0).1) := by
  by_cases htop : OnTop s rq
  · exact .inl ⟨_, w.schedule_onTop htop, kept_of_no_preemption, .inl htop⟩
  by_cases hnil : members (requeued s rq) = []
  · have hstop : ∀ a, s.currentTcb = some a → (s.heap a).state ≠ .running := by
      intro a ha hr
      exact List.ne_nil_of_mem ((mem_members_requeued hprio).mpr (.inr ⟨ha, hr⟩)) hnil
    have hempty : members rq = [] := by rwa [requeued_of_stopped hstop] at hnil
    exact .inl ⟨_, w.schedule_empty hcpu hempty hstop, kept_of_no_preemption, .inr ⟨hnil, hempty⟩⟩
  · exact .inr ⟨htop, hnil, fun m => w.schedule_rest htop⟩

/-- A decision keeps the current task, or takes a task of the highest priority with the current one
requeued. -/
theorem Placed.scheduleCpuLocked (h : Placed cfg s s.currentTcb rq sl fl none)
    (hcpu : cfg.maxCpus = 1) :
    (∃ s', scheduleCpuLocked cfg s 0 = (false, s') ∧ (members rq = [] ∨ OnTop s rq) ∧ Kept s s' ∧
      Placed cfg s' s'.nextTcb rq sl fl none) ∨
    (∃ p s', scheduleCpuLocked cfg s 0 = (decide (s.currentTcb ≠ some p), s') ∧
      p ∈ members (requeued s rq) ∧
      (∀ a ∈ members (requeued s rq), (s.heap a).priority ≤ (s.heap p).priority) ∧
      Dispatched s s' p ∧ ∃ rq', Placed cfg s' s'.nextTcb rq' sl fl none) := by
  rcases h.ready.schedule_cases hcpu fun c hc _ => h.priority c (h.current_task c hc) with
    ⟨s', heq, hkept, hcase⟩ | ⟨-, hne, hrest⟩
  · refine .inl ⟨s', heq, hcase.symm.imp_left And.right, hkept, ?_⟩
    rw [hkept.nextTcb]
    exact h.kept hkept
  right
  have htask : ∀ a ∈ members (requeued s rq), s.IsTask a ∧ a ∈ s.runnable := by
    intro a ha
    rcases h.mem_requeued.mp ha with ha | ⟨hcur, hr⟩
    · exact ⟨(h.ready_mem a ha).1, .inl (h.ready_mem a ha).2.1⟩
    · exact ⟨h.current_task a hcur, .inr hr⟩
  have hplaced : Placed cfg (s.setPreemptPending 0 false) s.currentTcb rq sl fl none :=
    h.of_eq rfl State.readyQueue_setPreemptPending rfl rfl h.current_task h.next_task
  have hfb : Frame s (s.setPreemptPending 0 false) s.runnable := by
    refine Frame.of_heap_eq rfl ?_
    simp [State.setPreemptPending, State.setCpu]
  rcases Placed.requeueCurrent hplaced with ⟨m, hreq, hm, hfm, hmr, hmc, hmt⟩
  rcases hm.takeNext hne with ⟨p, rq', n, hp, hmax, htake, hn, hfn, hnn, hnc, hnt⟩
  rcases hn.dispatchNext hnn (currentRunningPriority s) with
    ⟨s', hdisp, hs', hfs, hrun, hsc, hsn, hst⟩
  have hprio : ∀ a ∈ members (requeued s rq), (m.heap a).priority = (s.heap a).priority := by
    intro a ha
    exact hfm.priority a (htask a ha).1
  refine ⟨p, s', ?_, hp, ?_, ?_, rq', hsn ▸ hs'⟩
  · rw [hrest m hreq, htake, hdisp, hnc, hmc]
    rfl
  · intro a ha
    rw [← hprio a ha, ← hprio p hp]
    exact hmax a ha
  · have hsub : ({p} : Set TaskPtr) ⊆ s.runnable := by
      rintro a rfl
      exact (htask a hp).2
    have hframe : Frame s s' s.runnable :=
      hfb.trans ((hfm.mono (fun a ha => .inr ha.2)).trans ((hfn.mono hsub).trans (hfs.mono hsub)))
    refine ⟨hframe, (htask p hp).1, hrun, ?_, ?_, hsn, ?_⟩
    · intro a ha hta
      by_cases hap : a = p
      · exact .inr (hap ▸ hrun)
      · have hstate : (s'.heap a).state = (m.heap a).state := by
          rw [hfs.state (hfn.task a (hfm.task a hta)) hap, hfn.state (hfm.task a hta) hap]
        by_cases hcur : s.currentTcb = some a ∧ (s.heap a).state = .running
        · exact .inl (hstate.trans (hmr a hcur.1 hcur.2))
        · change (s'.heap a).state = .ready ∨ (s'.heap a).state = .running
          rw [hstate, hfm.state hta hcur]
          exact ha
    · rw [hsc, hnc, hmc]
      rfl
    · rw [hst, hnt, hmt]
      rfl

end OpenIon.Sched
