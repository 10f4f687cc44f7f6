import OpenIon.Sched.Placement.Ready
import OpenIon.Sched.Placement.Frame

/-! # Waking and creating tasks on one CPU

With one CPU every operation works on run queue 0. Waking a blocked task and
creating a new one both end in `enqueueOn`, which never fails here.
-/
namespace OpenIon.Sched
open Lib Mm

variable {cfg : Config} {s s' : State} {run : Option TaskPtr} {rq : ℕ → List TaskPtr}
  {sl fl : List TaskPtr} {p : TaskPtr}

theorem currentSchedulerCpuId_single (hcpu : cfg.maxCpus = 1) : cfg.currentSchedulerCpuId = 0 := by
  simp [Config.currentSchedulerCpuId, hcpu, Nat.mod_one]

theorem selectCpuForTask_single (hcpu : cfg.maxCpus = 1) (s : State) (t : TaskControlBlock) :
    selectCpuForTask cfg s t = 0 := by
  cases haff : t.affinity with
  | any =>
    simp only [selectCpuForTask, haff, hcpu, List.range_one, shortestQueue,
      currentSchedulerCpuId_single hcpu]
    split_ifs <;> rfl
  | pin cpu =>
    simp [selectCpuForTask, haff, hcpu, Nat.mod_one, currentSchedulerCpuId_single hcpu]

def pushed (h : Heap) (rq : ℕ → List TaskPtr) (p : TaskPtr) : ℕ → List TaskPtr :=
  Function.update rq (h p).priority (rq (h p).priority ++ [p])

/-- From `s` to `s'` the task `p` became ready and was enqueued on CPU 0, and the preemption
verdict for it was recorded. -/
structure Enqueued (s s' : State) (p : TaskPtr) : Prop extends Frame s s' {p} where
  idle : s.IsTask p → (s.heap p).state ≠ .running
  isTask : s'.IsTask p
  ready : (s'.heap p).state = .ready
  currentTcb : s'.currentTcb = s.currentTcb
  nextTcb : s'.nextTcb = s.nextTcb
  ticks : s'.ticks = s.ticks
  preemptPending : (s'.cpuScheds 0).preemptPending = checkPreemptNeeded s' (s'.heap p).priority

/-- A ready task that is out is enqueued and the preemption verdict for it recorded. -/
theorem Placed.enqueueOn (h : Placed cfg s run rq sl fl (some p))
    (hs : (s.heap p).state = .ready) (hn : (s.heap p).next = none) :
    ∃ s', Sched.enqueueOn cfg s 0 p = (true, s') ∧
      Placed cfg s' run (pushed s'.heap rq p) sl fl none ∧ Enqueued s s' p := by
  rcases h.putReady hs hn with ⟨q, h', hpush, hplaced, hframe⟩
  refine ⟨_, by rw [Sched.enqueueOn, hpush], ?_, ?_⟩
  · rw [pushed, State.heap_setPreemptPending, State.heap_setReadyQueue, hframe.self]
    exact hplaced.of_eq rfl State.readyQueue_setPreemptPending rfl rfl hplaced.current_task
      hplaced.next_task
  · have hf : Frame s (s.setReadyQueue 0 q h') {p} := Frame.of_push hframe
    refine ⟨hf.trans (Frame.of_heap_eq rfl ?_), by simp [hs], (h.taken p rfl).1, ?_, rfl, rfl, rfl,
      ?_⟩
    · simp [State.setPreemptPending, State.setCpu]
    · rw [State.heap_setPreemptPending, State.heap_setReadyQueue, hframe.self]
      exact hs
    · rw [State.preemptPending_setPreemptPending]
      rfl

theorem Placed.wakeBlockedTask (h : Placed cfg s run rq sl fl none) (hcpu : cfg.maxCpus = 1)
    (hp : s.IsTask p) (hb : (s.heap p).state = .blocked) :
    ∃ s', Sched.wakeBlockedTask cfg s (some p) = (true, s') ∧
      Placed cfg s' run (pushed s'.heap rq p) sl fl none ∧ Enqueued s s' p := by
  have hplace := h.inPlace hp
  rw [Place, hb] at hplace
  have hout := h.takeOff hp hplace (by simp [hb])
  have hready := hout.modify
    (t := { s.heap p with state := .ready, wakeupTick := 0, next := none }) hplace
    (h.priority p hp)
  have hf : Frame s
      (s.setTask p { s.heap p with state := .ready, wakeupTick := 0, next := none }) {p} :=
    Frame.setTask rfl rfl
  rcases hready.enqueueOn (by simp) (by simp) with ⟨s', henq, hplaced, he⟩
  refine ⟨s', ?_, hplaced, { he with toFrame := hf.trans he.toFrame, idle := by simp [hb] }⟩
  simp only [Sched.wakeBlockedTask, hb, if_true, selectCpuForTask_single hcpu, henq]

theorem wakeBlockedTask_of_not_blocked (hb : (s.heap p).state ≠ .blocked) :
    wakeBlockedTask cfg s (some p) = (false, s) := by
  simp [wakeBlockedTask, hb]

theorem Placed.takeFresh {t : TaskControlBlock} {pool : Slab TaskControlBlock}
    (h : Placed cfg s run rq sl fl none) (ha : s.pool.alloc cfg.taskCap t = some (p, pool))
    (t' : TaskControlBlock) (hq : t'.queued = false) (hprio : t'.priority < maxPriorities) :
    ∃ rest, fl = p :: rest ∧ ¬ s.IsTask p ∧
      (∀ a, s.IsTask a → ((s.withBlock pool).setTask p t').heap a = s.heap a) ∧
      (∀ a, ((s.withBlock pool).setTask p t').IsTask a ↔ s.IsTask a ∨ a = p) ∧
      Placed cfg ((s.withBlock pool).setTask p t') run rq sl rest (some p) := by
  rcases h.pool.alloc ha with ⟨rest, rfl, hpool, hfree, -, hdata, hlive⟩
  have hnot : ¬ s.IsTask p := by simp [State.IsTask, hfree]
  have hne : ∀ a, s.IsTask a → a ≠ p := by
    rintro a hta rfl
    exact hnot hta
  have htask : ∀ a, ((s.withBlock pool).setTask p t').IsTask a ↔ s.IsTask a ∨ a = p := by
    intro a
    change pool.live a = true ↔ s.pool.live a = true ∨ a = p
    by_cases hap : a = p
    · simp [hlive, hap]
    · simp [hlive, hap]
  have hheap : ∀ a, s.IsTask a → ((s.withBlock pool).setTask p t').heap a = s.heap a := by
    intro a hta
    rw [State.heap_setTask, Heap.set_of_ne (hne a hta)]
    change pool.data a = s.pool.data a
    rw [hdata, Function.update_of_ne (hne a hta)]
  refine ⟨rest, rfl, hnot, hheap, htask, ?_⟩
  constructor
  · exact hpool.setData _
  · apply h.ready.congr
    · intro a ha
      rw [hheap a (h.ready_mem a ha).1]
    · intro a ha
      rw [hheap a (h.ready_mem a ha).1]
    · intro a ha
      rw [hheap a (h.ready_mem a ha).1]
  · apply h.sleep.congr
    intro a ha
    exact congrArg TaskControlBlock.next (hheap a (h.sleep_mem a ha).1)
  · intro a ha
    have hr := h.ready_mem a ha
    rw [htask, hheap a hr.1]
    exact ⟨.inl hr.1, hr.2.1, fun he => hne a hr.1 (Option.some.inj he).symm⟩
  · intro a ha
    have hr := h.sleep_mem a ha
    rw [htask, hheap a hr.1]
    exact ⟨.inl hr.1, hr.2.1, fun he => hne a hr.1 (Option.some.inj he).symm⟩
  · intro a ha hout
    rcases (htask a).mp ha with ha | rfl
    · rw [hheap a ha]
      exact h.inPlace ha
    · exact absurd rfl hout
  · intro a ha
    rw [← Option.some.inj ha]
    refine ⟨(htask p).mpr (.inr rfl), ?_⟩
    rw [State.heap_setTask, Heap.set_self]
    exact hq
  · intro a ha
    rcases (htask a).mp ha with ha | rfl
    · rw [hheap a ha]
      exact h.priority a ha
    · rw [State.heap_setTask, Heap.set_self]
      exact hprio
  · have hids := h.ids
    have hcap := cfg.taskCap_lt
    simp only [List.length_cons] at hids
    change (s.taskIdCounter + 1).toNat + rest.length = cfg.taskCap
    rw [UInt32.toNat_add, UInt32.toNat_one, Nat.mod_eq_of_lt (by omega)]
    omega
  · intro a ha
    exact (htask a).mpr (.inl (h.current_task a ha))
  · intro a ha
    exact (htask a).mpr (.inl (h.next_task a ha))

/-- Creating a task, when there is a control block left, returns a fresh id and a new ready
task at the end of its list. -/
theorem Placed.createTaskOnCpu (h : Placed cfg s run rq sl fl none) (hcpu : cfg.maxCpus = 1)
    {args : TaskArgs} {cpu : ℕ} {id : TaskId}
    (hc : Sched.createTaskOnCpu cfg s args cpu = some (id, s')) :
    ∃ p rest, fl = p :: rest ∧ ¬ s.IsTask p ∧ id = s.taskIdCounter ∧ (s'.heap p).id = id ∧
      (s'.heap p).priority = min args.priority maxPriority ∧
      Placed cfg s' run (pushed s'.heap rq p) sl rest none ∧ Enqueued s s' p := by
  rw [Sched.createTaskOnCpu] at hc
  split at hc
  · exact absurd hc (by simp)
  · rename_i p pool ha
    have hprio : min args.priority maxPriority < maxPriorities := by
      simp [maxPriority, maxPriorities]
    have hdata : (s.withBlock pool).heap p = TaskControlBlock.new 0 args.entry args.initialSp
        args.stackSize (min args.priority maxPriority) args.name := by
      rcases h.pool.alloc ha with ⟨rest, -, -, -, -, hdata, -⟩
      change pool.data p = _
      rw [hdata, Function.update_self]
    rcases h.takeFresh ha { (s.withBlock pool).heap p with id := s.taskIdCounter }
      (by rw [hdata]; rfl) (by rw [hdata]; exact hprio) with ⟨rest, rfl, hnot, hheap, htask, hout⟩
    rcases hout.enqueueOn (by rw [State.heap_setTask, Heap.set_self, hdata]; rfl)
      (by rw [State.heap_setTask, Heap.set_self, hdata]; rfl) with ⟨m, henq, hplaced, he⟩
    have hvalid : s.taskIdCounter ≠ taskIdInvalid := by
      intro hinv
      have hids := h.ids
      have hcap := cfg.taskCap_lt
      rw [hinv] at hids
      simp [taskIdInvalid] at hids
      omega
    simp only [hcpu, Nat.mod_one, henq, if_true, ne_eq, hvalid, not_false_eq_true,
      Option.some.injEq, Prod.mk.injEq] at hc
    rcases hc with ⟨rfl, rfl⟩
    have hself := hout.taken p rfl
    refine ⟨p, rest, rfl, hnot, rfl, ?_, ?_, hplaced, ?_⟩
    · rw [he.id p hself.1, State.heap_setTask, Heap.set_self]
    · rw [he.priority p hself.1, State.heap_setTask, Heap.set_self, hdata]
      rfl
    · have hf : Frame s ((s.withBlock pool).setTask p
          { (s.withBlock pool).heap p with id := s.taskIdCounter }) {p} := by
        refine ⟨fun a hta => (htask a).mpr (.inl hta), ?_, ?_, ?_, rfl⟩
        · intro a hta
          rw [hheap a hta]
        · intro a hta
          rw [hheap a hta]
        · intro a hta _
          rw [hheap a hta]
      exact { he with toFrame := hf.trans he.toFrame, idle := fun hp => absurd hp hnot }

/-- The listed tasks were enqueued one after the other. -/
inductive EnqueuedAll : State → List TaskPtr → State → Prop where
  | nil (s : State) : EnqueuedAll s [] s
  | cons {s m s' : State} {p : TaskPtr} {ps : List TaskPtr} :
      Enqueued s m p → EnqueuedAll m ps s' → EnqueuedAll s (p :: ps) s'

/-- Enqueueing a task does not change whether, and at which priority, the current one runs. -/
theorem Enqueued.checkPreemptNeeded (he : Enqueued s s' p)
    (hcur : ∀ c, s.currentTcb = some c → s.IsTask c) (priority : ℕ) :
    Sched.checkPreemptNeeded s' priority = Sched.checkPreemptNeeded s priority := by
  unfold Sched.checkPreemptNeeded
  rw [he.currentTcb]
  cases hc : s.currentTcb with
  | none => rfl
  | some c =>
    have htask := hcur c hc
    by_cases hcp : c = p
    · subst hcp
      simp [State.isRunning, he.ready, he.idle htask]
    · simp [State.isRunning, he.state htask hcp, he.priority c htask]

namespace EnqueuedAll

variable {m : State} {ps qs : List TaskPtr}

theorem append (h : EnqueuedAll s ps m) (h' : EnqueuedAll m qs s') :
    EnqueuedAll s (ps ++ qs) s' := by
  induction h with
  | nil s => exact h'
  | cons he _ ih => exact .cons he (ih h')

theorem frame (h : EnqueuedAll s ps s') : Frame s s' {a | a ∈ ps} := by
  induction h with
  | nil s => exact Frame.of_heap_eq rfl rfl
  | cons he _ ih =>
    apply Frame.trans (he.toFrame.mono _) (ih.mono _)
    · simp
    · intro a ha
      exact List.mem_cons_of_mem _ ha

theorem currentTcb (h : EnqueuedAll s ps s') : s'.currentTcb = s.currentTcb := by
  induction h with
  | nil s => rfl
  | cons he _ ih => rw [ih, he.currentTcb]

theorem nextTcb (h : EnqueuedAll s ps s') : s'.nextTcb = s.nextTcb := by
  induction h with
  | nil s => rfl
  | cons he _ ih => rw [ih, he.nextTcb]

theorem ticks (h : EnqueuedAll s ps s') : s'.ticks = s.ticks := by
  induction h with
  | nil s => rfl
  | cons he _ ih => rw [ih, he.ticks]

theorem ready (h : EnqueuedAll s ps s') : ∀ a ∈ ps, (s'.heap a).state = .ready := by
  induction h with
  | nil s => simp
  | @cons s m s' p ps he hall ih =>
    intro a ha
    by_cases hmem : a ∈ ps
    · exact ih a hmem
    · have hap : a = p := (List.mem_cons.mp ha).resolve_right hmem
      rw [hap] at hmem ⊢
      rw [hall.frame.state he.isTask hmem, he.ready]

theorem preemptPending (h : EnqueuedAll s ps s')
    (hcur : ∀ c, s.currentTcb = some c → s.IsTask c) :
    (s'.cpuScheds 0).preemptPending = match ps.getLast? with
      | none => (s.cpuScheds 0).preemptPending
      | some p => checkPreemptNeeded s (s'.heap p).priority := by
  induction h with
  | nil s => rfl
  | @cons s m s' p ps he hall ih =>
    have hcur' : ∀ c, m.currentTcb = some c → m.IsTask c := by
      intro c hc
      rw [he.currentTcb] at hc
      exact he.task c (hcur c hc)
    rw [ih hcur', List.getLast?_cons]
    cases ps.getLast? with
    | none =>
      change (m.cpuScheds 0).preemptPending = checkPreemptNeeded s (s'.heap p).priority
      rw [hall.frame.priority p he.isTask, he.preemptPending, he.checkPreemptNeeded hcur]
    | some b => exact he.checkPreemptNeeded hcur _

end EnqueuedAll

end OpenIon.Sched
