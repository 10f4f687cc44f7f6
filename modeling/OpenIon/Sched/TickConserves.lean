import OpenIon.Sched.Riscv.Places

/-! # Waking the sleepers that are due

`tick_update` puts a due task that no ready queue takes back at the head of the sleep list,
while it still walks over this list. But a ready queue has room for all the control blocks of the
pool, so that no sleeper is refused, with any number of CPUs: the due tasks go to the ready queues,
and the others stay linked in their order.
-/
namespace OpenIon.Sched
open Lib

def InQueues (cfg : Config) (rq : ℕ → ℕ → List TaskPtr) (a : TaskPtr) : Prop :=
  ∃ cpu < cfg.maxCpus, a ∈ members (rq cpu)

/-- The ready queue of each CPU is the family of lists `rq cpu`, the sleep list is `sl`, and no two
of them share a task. -/
structure Queues (cfg : Config) (s : State) (rq : ℕ → ℕ → List TaskPtr) (sl : List TaskPtr) :
    Prop where
  ready : ∀ cpu < cfg.maxCpus, (s.cpuScheds cpu).readyQueue.Wf s.heap (rq cpu)
  sleep : Chain s.heap.next s.sleepQueue sl
  apart : ∀ a ∈ sl, ¬ InQueues cfg rq a
  once : ∀ cpu < cfg.maxCpus, ∀ cpu' < cfg.maxCpus, ∀ a ∈ members (rq cpu),
    a ∈ members (rq cpu') → cpu = cpu'

def State.isDue (s : State) (a : TaskPtr) : Bool := Sched.isDue s.ticks (s.heap a).wakeupTick

/-- The ready queue that is selected for a due task does not take it. -/
def refuses (cfg : Config) (s : State) (a : TaskPtr) : Bool :=
  (s.heap a).queued || decide (maxPriorities ≤ (s.heap a).priority) ||
    decide (cfg.taskCap ≤ (s.cpuScheds (selectCpuForTask cfg s (s.heap a))).readyQueue.taskCount)

/-- The due tasks of the list that are refused when the loop gets to them. -/
def refusedSleepers (cfg : Config) : State → Option TaskPtr → List TaskPtr → List TaskPtr
  | _, _, [] => []
  | s, prev, p :: rest =>
    if s.isDue p then
      (if refuses cfg s p then [p] else []) ++
        refusedSleepers cfg (wakeSleeper cfg s prev p) prev rest
    else refusedSleepers cfg s (some p) rest

variable {cfg : Config} {s s' m : State} {rq rq' : ℕ → ℕ → List TaskPtr}
  {sl l pre rest : List TaskPtr} {p a : TaskPtr} {prev : Option TaskPtr} {cpu : ℕ}

theorem selectCpuForTask_lt (cfg : Config) (s : State) (t : TaskControlBlock) :
    selectCpuForTask cfg s t < cfg.maxCpus := by
  have hcurrent : cfg.currentSchedulerCpuId < cfg.maxCpus := by
    unfold Config.currentSchedulerCpuId
    dsimp only
    split
    · exact Nat.mod_lt _ cfg.maxCpus_pos
    · exact cfg.maxCpus_pos
  have hshortest : ∀ cpus best, (∀ i ∈ cpus, i < cfg.maxCpus) → best.1 < cfg.maxCpus →
      (shortestQueue cfg s best cpus).1 < cfg.maxCpus := by
    intro cpus
    induction cpus with
    | nil => exact fun best _ hbest => hbest
    | cons i cpus ih =>
      intro best hcpus hbest
      rw [shortestQueue]
      split
      · exact ih _ (fun j hj => hcpus j (by simp [hj])) (hcpus i (by simp))
      · exact ih _ (fun j hj => hcpus j (by simp [hj])) hbest
  unfold selectCpuForTask
  split
  · dsimp only
    split
    · exact Nat.mod_lt _ cfg.maxCpus_pos
    · exact hcurrent
  · exact hshortest _ _ (fun i hi => List.mem_range.mp hi) hcurrent

def enqueued (rq : ℕ → ℕ → List TaskPtr) (cpu i : ℕ) (p : TaskPtr) : ℕ → ℕ → List TaskPtr :=
  Function.update rq cpu (Function.update (rq cpu) i (rq cpu i ++ [p]))

theorem mem_enqueued {i j : ℕ} (hi : i < maxPriorities) :
    a ∈ members (enqueued rq cpu i p j) ↔ a ∈ members (rq j) ∨ a = p ∧ j = cpu := by
  by_cases hj : j = cpu
  · subst hj
    simp [enqueued, mem_members_append (rq j) hi]
  · simp [enqueued, hj]

theorem inQueues_enqueued {i : ℕ} (hi : i < maxPriorities) (hcpu : cpu < cfg.maxCpus) :
    InQueues cfg (enqueued rq cpu i p) a ↔ InQueues cfg rq a ∨ a = p := by
  simp only [InQueues, mem_enqueued hi]
  constructor
  · rintro ⟨j, hj, ha | ⟨rfl, -⟩⟩
    · exact .inl ⟨j, hj, ha⟩
    · exact .inr rfl
  · rintro (⟨j, hj, ha⟩ | rfl)
    · exact ⟨j, hj, .inl ha⟩
    · exact ⟨cpu, hcpu, .inr ⟨rfl, rfl⟩⟩

namespace Queues

/-- The sleep list may be relinked to some of its tasks. -/
theorem relink (h : Queues cfg s rq sl) (hcpus : m.cpuScheds = s.cpuScheds)
    (hheap : ∀ a ∉ sl, m.heap a = s.heap a) (hchain : Chain m.heap.next m.sleepQueue l)
    (hsub : l ⊆ sl) : Queues cfg m rq l where
  ready cpu hcpu := by
    have hsame : ∀ a ∈ members (rq cpu), m.heap a = s.heap a := fun a ha =>
      hheap a fun hsl => h.apart a hsl ⟨cpu, hcpu, ha⟩
    rw [hcpus]
    exact (h.ready cpu hcpu).of_same hsame
  sleep := hchain
  apart a ha := h.apart a (hsub ha)
  once := h.once

theorem push (h : Queues cfg s rq l) (hcpu : cpu < cfg.maxCpus) (hp : p ∉ l)
    (hq : ¬ InQueues cfg rq p) {i : ℕ} (hi : i < maxPriorities) {q : ReadyQueue}
    (hqueue : (s'.cpuScheds cpu).readyQueue = q)
    (hother : ∀ j, j ≠ cpu → (s'.cpuScheds j).readyQueue = (s.cpuScheds j).readyQueue)
    (hwf : q.Wf s'.heap (Function.update (rq cpu) i (rq cpu i ++ [p])))
    (hframe : ReadyQueue.PushFrame s.heap s'.heap (rq cpu) p)
    (hsleep : s'.sleepQueue = s.sleepQueue) : Queues cfg s' (enqueued rq cpu i p) l where
  ready j hj := by
    by_cases hjc : j = cpu
    · subst hjc
      rw [hqueue, enqueued, Function.update_self]
      exact hwf
    · have hsame : ∀ a ∈ members (rq j), s'.heap a = s.heap a := by
        intro a ha
        refine hframe.outside a ?_ fun hmem => hjc (h.once j hj cpu hcpu a ha hmem)
        exact fun heq => hq ⟨j, hj, heq ▸ ha⟩
      rw [hother j hjc, enqueued, Function.update_of_ne hjc]
      exact (h.ready j hj).of_same hsame
  sleep := by
    rw [hsleep]
    refine h.sleep.congr fun a ha => ?_
    have hsame : s'.heap a = s.heap a := hframe.outside a (fun heq => hp (heq ▸ ha))
      fun hmem => h.apart a ha ⟨cpu, hcpu, hmem⟩
    simp only [Heap.next, hsame]
  apart a ha := by
    rw [inQueues_enqueued hi hcpu]
    rintro (hmem | rfl)
    · exact h.apart a ha hmem
    · exact hp ha
  once j hj k hk a haj hak := by
    rw [mem_enqueued hi] at haj hak
    rcases haj with haj | ⟨rfl, rfl⟩ <;> rcases hak with hak | ⟨hap, rfl⟩
    · exact h.once j hj k hk a haj hak
    · exact absurd ⟨j, hj, hap ▸ haj⟩ hq
    · exact absurd ⟨k, hk, hak⟩ hq
    · rfl

theorem enqueueOn (h : Queues cfg s rq l) (hcpu : cpu < cfg.maxCpus) (hp : p ∉ l)
    (hq : ¬ InQueues cfg rq p)
    (hacc : ReadyQueue.Accepts cfg.taskCap (s.cpuScheds cpu).readyQueue s.heap p) :
    ∃ s', Sched.enqueueOn cfg s cpu p = (true, s') ∧
      Queues cfg s' (enqueued rq cpu (s.heap p).priority p) l ∧
      s'.heap p = { s.heap p with next := none, queued := true } := by
  have hpush := ReadyQueue.push_of_accepts hacc
  rcases (h.ready cpu hcpu).push hacc hpush with ⟨hwf, hframe⟩
  generalize hqueue : ReadyQueue.mk _ _ _ _ = q at hpush hwf
  generalize hheap : Heap.set (Queue.pushBack _ _ _).2 _ _ = h' at hpush hwf hframe
  have henq : Sched.enqueueOn cfg s cpu p = (true, (s.setReadyQueue cpu q h').setPreemptPending cpu
      (checkPreemptNeeded (s.setReadyQueue cpu q h') (h' p).priority)) := by
    simp only [Sched.enqueueOn, hpush, State.heap_setReadyQueue]
  refine ⟨_, henq, h.push hcpu hp hq hacc.priority (q := q) ?_ ?_ hwf hframe rfl, hframe.self⟩
  · rw [State.readyQueue_setPreemptPending, State.readyQueue_setReadyQueue]
  · intro j hj
    rw [State.readyQueue_setPreemptPending]
    simp [State.setReadyQueue, State.setCpu, hj, State.setHeap]

end Queues

theorem selectCpuForTask_congr {t t' : TaskControlBlock} (hcpus : m.cpuScheds = s.cpuScheds)
    (haff : t'.affinity = t.affinity) : selectCpuForTask cfg m t' = selectCpuForTask cfg s t := by
  have hshortest : ∀ cpus best, shortestQueue cfg m best cpus = shortestQueue cfg s best cpus := by
    intro cpus
    induction cpus with
    | nil => exact fun _ => rfl
    | cons i cpus ih =>
      intro best
      rw [shortestQueue, shortestQueue, hcpus, ih, ih]
  rw [selectCpuForTask, selectCpuForTask, haff]
  split
  · rfl
  · rw [hshortest]

/-- Apart from the task `p`, the states agree in time and in all of a task but its link. -/
structure OnlyLinks (s s' : State) (p : TaskPtr) : Prop where
  ticks : s'.ticks = s.ticks
  other : ∀ a, a ≠ p → s'.heap a = { s.heap a with next := (s'.heap a).next }

theorem OnlyLinks.trans (h : OnlyLinks s m p) (h' : OnlyLinks m s' p) : OnlyLinks s s' p := by
  refine ⟨h'.ticks.trans h.ticks, fun a hap => (h'.other a hap).trans ?_⟩
  rw [h.other a hap]

theorem OnlyLinks.isDue_eq (h : OnlyLinks s s' p) (hap : a ≠ p) : s'.isDue a = s.isDue a := by
  rw [State.isDue, State.isDue, h.ticks, h.other a hap]

def unlinkReady (s : State) (prev : Option TaskPtr) (p : TaskPtr) : State :=
  let s := unlinkSleeper s prev (s.heap p).next
  s.setTask p { s.heap p with state := .ready, next := none }

theorem cpuScheds_unlinkReady : (unlinkReady s prev p).cpuScheds = s.cpuScheds := by
  cases prev <;> rfl

theorem ticks_unlinkReady : (unlinkReady s prev p).ticks = s.ticks := by
  cases prev <;> rfl

theorem unlinkReady_of_ne (hap : a ≠ p) (hprev : prev ≠ some a) :
    (unlinkReady s prev p).heap a = s.heap a := by
  cases prev with
  | none => exact Heap.set_of_ne hap
  | some b =>
    have hab : a ≠ b := fun heq => hprev (heq ▸ rfl)
    simp [unlinkReady, unlinkSleeper, Heap.set_of_ne hap, Heap.set_of_ne hab]

theorem unlinkReady_self (hprev : prev ≠ some p) :
    (unlinkReady s prev p).heap p = { s.heap p with state := .ready, next := none } := by
  cases prev with
  | none => exact Heap.set_self
  | some b =>
    have hpb : p ≠ b := fun heq => hprev (heq ▸ rfl)
    simp [unlinkReady, unlinkSleeper, Heap.set_of_ne hpb]

theorem onlyLinks_unlinkReady : OnlyLinks s (unlinkReady s prev p) p := by
  refine ⟨ticks_unlinkReady, fun a hap => ?_⟩
  by_cases hprev : prev = some a
  · subst hprev
    simp [unlinkReady, unlinkSleeper, Heap.set_of_ne hap]
  · rw [unlinkReady_of_ne hap hprev]

theorem accepts_unlinkReady (cfg : Config) (s : State) (hprev : prev ≠ some p) :
    ReadyQueue.Accepts cfg.taskCap ((unlinkReady s prev p).cpuScheds (selectCpuForTask cfg
      (unlinkReady s prev p) ((unlinkReady s prev p).heap p))).readyQueue
      (unlinkReady s prev p).heap p ↔ refuses cfg s p = false := by
  have hcpu : selectCpuForTask cfg (unlinkReady s prev p) ((unlinkReady s prev p).heap p) =
      selectCpuForTask cfg s (s.heap p) :=
    selectCpuForTask_congr cpuScheds_unlinkReady (by rw [unlinkReady_self hprev])
  rw [hcpu, cpuScheds_unlinkReady]
  simp only [refuses, Bool.or_eq_false_iff, decide_eq_false_iff_not, not_le]
  constructor
  · rintro ⟨hqueued, -, -, hroom, hprio⟩
    rw [unlinkReady_self hprev] at hqueued hprio
    exact ⟨⟨hqueued, hprio⟩, hroom⟩
  · rintro ⟨⟨hqueued, hprio⟩, hroom⟩
    exact ⟨by rw [unlinkReady_self hprev]; exact hqueued, by rw [unlinkReady_self hprev],
      by rw [unlinkReady_self hprev], hroom, by rw [unlinkReady_self hprev]; exact hprio⟩

theorem onlyLinks_enqueueOn
    (hacc : ReadyQueue.Accepts cfg.taskCap (s.cpuScheds cpu).readyQueue s.heap p) :
    OnlyLinks s (enqueueOn cfg s cpu p).2 p := by
  simp only [enqueueOn, ReadyQueue.push_of_accepts hacc]
  refine ⟨rfl, fun a hap => ?_⟩
  rw [State.heap_setPreemptPending, State.heap_setReadyQueue, Heap.set_of_ne hap]
  exact Queue.pushBack_frame hap

/-- From `s` to `s'` no task is lost or gained: the tasks that are not due sleep on, and the due
ones are ready and queued, or sleep when they were refused. -/
structure Conserved (cfg : Config) (s : State) (rq : ℕ → ℕ → List TaskPtr) (sl : List TaskPtr)
    (s' : State) (rq' : ℕ → ℕ → List TaskPtr) (sl' : List TaskPtr) : Prop where
  queues : Queues cfg s' rq' sl'
  tasks : ∀ a, InQueues cfg rq' a ∨ a ∈ sl' ↔ InQueues cfg rq a ∨ a ∈ sl
  later : ∀ a ∈ sl, s.isDue a = false → a ∈ sl'
  due : ∀ a ∈ sl, s.isDue a = true →
    if a ∈ refusedSleepers cfg s none sl then (s'.heap a).state = .sleeping ∧ a ∈ sl'
    else (s'.heap a).state = .ready ∧ InQueues cfg rq' a

/-! ## Control blocks of the pool -/

/-- Consistent lists of tasks that are control blocks of the pool. A task that sleeps is not flagged
as queued and has a priority that `create_task` accepts. -/
structure Pooled (cfg : Config) (s : State) (rq : ℕ → ℕ → List TaskPtr) (sl : List TaskPtr) :
    Prop extends Queues cfg s rq sl where
  sleeper : ∀ a ∈ sl, a < cfg.taskCap ∧ (s.heap a).queued = false ∧
    (s.heap a).priority < maxPriorities
  block : ∀ a, InQueues cfg rq a → a < cfg.taskCap

namespace Pooled

/-- With a block outside of it, no ready queue is full. -/
theorem refuses_eq_false (h : Pooled cfg s rq sl) (hp : p ∈ sl) : refuses cfg s p = false := by
  rcases h.sleeper p hp with ⟨hlt, hqueued, hprio⟩
  set cpu := selectCpuForTask cfg s (s.heap p)
  have hcpu : cpu < cfg.maxCpus := selectCpuForTask_lt cfg s (s.heap p)
  have hroom : (s.cpuScheds cpu).readyQueue.taskCount < cfg.taskCap := by
    apply (h.ready cpu hcpu).room (fun hmem => h.apart p hp ⟨cpu, hcpu, hmem⟩) hlt
    exact fun a ha => h.block a ⟨cpu, hcpu, ha⟩
  simp [refuses, hqueued, hprio, hroom, cpu]

/-- A due task is unlinked from the list and goes to a ready queue. -/
theorem wakeSleeper (h : Pooled cfg s rq (pre ++ p :: rest)) :
    ∃ rq', Pooled cfg (Sched.wakeSleeper cfg s pre.getLast? p) rq' (pre ++ rest) ∧
      ((Sched.wakeSleeper cfg s pre.getLast? p).heap p).state = .ready ∧
      OnlyLinks s (Sched.wakeSleeper cfg s pre.getLast? p) p ∧
      ∀ a, InQueues cfg rq' a ↔ InQueues cfg rq a ∨ a = p := by
  have hp : p ∈ pre ++ p :: rest := by simp
  have hnodup := h.sleep.nodup
  rw [List.nodup_middle, List.nodup_cons] at hnodup
  have hsub : ∀ a ∈ pre ++ rest, a ∈ pre ++ p :: rest ∧ a ≠ p := by
    intro a ha
    refine ⟨?_, fun heq => hnodup.1 (heq ▸ ha)⟩
    rw [List.mem_append, List.mem_cons]
    exact (List.mem_append.mp ha).imp_right .inr
  have hprev : ∀ b, pre.getLast? = some b → b ∈ pre ++ rest := fun b hb =>
    List.mem_append_left _ (List.mem_of_getLast? hb)
  have hpp : pre.getLast? ≠ some p := fun heq => (hsub p (hprev p heq)).2 rfl
  -- the list without the task, which is in no queue yet
  have hready : Queues cfg (unlinkReady s pre.getLast? p) rq (pre ++ rest) := by
    refine h.relink cpuScheds_unlinkReady ?_ ?_ fun a ha => (hsub a ha).1
    · intro a ha
      exact unlinkReady_of_ne (fun heq => ha (heq ▸ hp)) fun heq => ha (hsub a (hprev a heq)).1
    · refine (unlinkSleeper_chain h.sleep).congr fun a ha => ?_
      simp [Heap.next, unlinkReady, Heap.set_of_ne (hsub a ha).2]
  have hacc := (accepts_unlinkReady cfg s hpp).mpr (h.refuses_eq_false hp)
  have hcpu := selectCpuForTask_lt cfg (unlinkReady s pre.getLast? p)
    ((unlinkReady s pre.getLast? p).heap p)
  have hlinks := onlyLinks_unlinkReady.trans (onlyLinks_enqueueOn hacc)
  rcases hready.enqueueOn hcpu (fun hmem => (hsub p hmem).2 rfl) (h.apart p hp) hacc with
    ⟨s', henq, hqueues, hself⟩
  have hwake : Sched.wakeSleeper cfg s pre.getLast? p = s' := by
    simp only [Sched.wakeSleeper, unlinkReady] at henq ⊢
    simp only [henq, if_true]
  have hin : ∀ a, InQueues cfg _ a ↔ InQueues cfg rq a ∨ a = p := fun a =>
    inQueues_enqueued hacc.priority hcpu
  rw [henq] at hlinks
  rw [hwake]
  refine ⟨_, ⟨hqueues, fun a ha => ?_, fun a ha => ?_⟩, ?_, hlinks, hin⟩
  · rw [hlinks.other a (hsub a ha).2]
    exact h.sleeper a (hsub a ha).1
  · rcases (hin a).mp ha with ha | rfl
    · exact h.block a ha
    · exact (h.sleeper a hp).1
  · rw [hself]
    exact hacc.ready

/-- The tasks of the list `due` have been moved to the ready queues. -/
structure Woken (cfg : Config) (s : State) (rq : ℕ → ℕ → List TaskPtr) (due : List TaskPtr)
    (s' : State) (rq' : ℕ → ℕ → List TaskPtr) : Prop where
  queued : ∀ a, InQueues cfg rq' a ↔ InQueues cfg rq a ∨ a ∈ due
  ready : ∀ a ∈ due, (s'.heap a).state = .ready
  ticks : s'.ticks = s.ticks
  other : ∀ a ∉ due, s'.heap a = { s.heap a with next := (s'.heap a).next }

theorem Woken.cons {rq₁ : ℕ → ℕ → List TaskPtr} {due : List TaskPtr}
    (h : Woken cfg m rq₁ due s' rq') (hp : p ∉ due) (hself : (m.heap p).state = .ready)
    (hlinks : OnlyLinks s m p) (hin : ∀ a, InQueues cfg rq₁ a ↔ InQueues cfg rq a ∨ a = p) :
    Woken cfg s rq (p :: due) s' rq' := by
  refine ⟨fun a => ?_, fun a ha => ?_, h.ticks.trans hlinks.ticks, fun a ha => ?_⟩
  · rw [h.queued, hin, or_assoc, List.mem_cons]
  · rcases List.mem_cons.mp ha with rfl | ha
    · rw [h.other a hp]
      exact hself
    · exact h.ready a ha
  · rw [List.mem_cons, not_or] at ha
    rw [h.other a ha.2, hlinks.other a ha.1]

theorem refusedSleepers_eq_nil (pre : List TaskPtr) (h : Pooled cfg s rq (pre ++ rest)) :
    refusedSleepers cfg s pre.getLast? rest = [] := by
  induction rest generalizing s rq pre with
  | nil => rfl
  | cons p rest ih =>
    rw [refusedSleepers]
    split
    · rcases h.wakeSleeper with ⟨rq₁, hpooled, -⟩
      rw [h.refuses_eq_false (by simp), ih pre hpooled]
      rfl
    · have hpassed : Pooled cfg s rq ((pre ++ [p]) ++ rest) := by
        rw [List.append_assoc]
        exact h
      have hlast : (pre ++ [p]).getLast? = some p := by simp
      exact hlast ▸ ih (pre ++ [p]) hpassed

theorem sleep_length_le (h : Pooled cfg s rq sl) : sl.length ≤ cfg.taskCap := by
  apply length_le_of_nodup h.sleep.nodup
  exact fun a ha => (h.sleeper a ha).1

/-- `tick_update` makes the due sleepers ready and leaves the others asleep. -/
theorem tickUpdate (h : Pooled cfg s rq sl) :
    ∃ s' rq' sl', tickUpdate cfg s = some s' ∧ Pooled cfg s' rq' sl' ∧ s'.ticks = s.ticks ∧
      Conserved cfg s rq sl s' rq' sl' ∧ refusedSleepers cfg s none sl = [] ∧
      ∀ a ∈ sl, if s.isDue a then (s'.heap a).state = .ready
        else a ∈ sl' ∧ s'.heap a = { s.heap a with next := (s'.heap a).next } := by
  have hrefused : refusedSleepers cfg s none sl = [] := refusedSleepers_eq_nil [] h
  rcases tickLoop_rule (Pooled cfg) (Woken cfg) (fun _ _ _ h => h.sleep)
      (fun s rq => ⟨by simp, by simp, rfl, fun _ _ => rfl⟩) (fun s rq pre p rest h => by
        rcases h.wakeSleeper with ⟨rq₁, hpooled, hself, hlinks, hin⟩
        exact ⟨rq₁, hpooled, fun a _ hap => hlinks.isDue_eq hap,
          fun due s' rq' hp hwoken => hwoken.cons hp hself hlinks hin⟩) [] h h.sleep_length_le with
    ⟨s', rq', hloop, hpooled, hwoken⟩
  have hlater : ∀ a ∈ sl, s.isDue a = false → a ∈ sl.filter fun a => !s.isDue a := fun a ha hd =>
    List.mem_filter.mpr ⟨ha, by simp [hd]⟩
  refine ⟨s', rq', _, ?_, hpooled, hwoken.ticks, ⟨hpooled.toQueues, fun a => ?_, hlater, ?_⟩,
    hrefused, ?_⟩
  · rw [Sched.tickUpdate, h.sleep.head_eq]
    exact hloop
  · rw [hwoken.queued, List.nil_append, laterTasks, dueTasks, List.mem_filter, List.mem_filter,
      or_assoc]
    refine or_congr_right ?_
    cases isDue s.ticks (s.heap a).wakeupTick <;> simp
  · intro a ha hd
    rw [hrefused, if_neg List.not_mem_nil]
    have hmem := List.mem_filter.mpr ⟨ha, hd⟩
    exact ⟨hwoken.ready a hmem, (hwoken.queued a).mpr (.inr hmem)⟩
  · intro a ha
    cases hd : s.isDue a with
    | true => exact hwoken.ready a (List.mem_filter.mpr ⟨ha, hd⟩)
    | false =>
      refine ⟨hlater a ha hd, hwoken.other a fun hmem => ?_⟩
      exact Bool.false_ne_true (hd.symm.trans (List.mem_filter.mp hmem).2)

end Pooled

theorem Placed.pooled {run : Option TaskPtr} {lists : ℕ → List TaskPtr} {fl : List TaskPtr}
    (h : Placed cfg s run lists sl fl none) (hcpu : cfg.maxCpus = 1) :
    Pooled cfg s (fun _ => lists) sl := by
  have hzero : ∀ cpu < cfg.maxCpus, cpu = 0 := fun cpu hlt => Nat.lt_one_iff.mp (hcpu ▸ hlt)
  refine ⟨⟨?_, h.sleep, ?_, ?_⟩, ?_, ?_⟩
  · intro cpu hlt
    rw [hzero cpu hlt]
    exact h.ready
  · rintro a ha ⟨cpu, -, hmem⟩
    have hsleeping := (h.sleep_mem a ha).2.1
    simp [(h.ready_mem a hmem).2.1] at hsleeping
  · intro cpu hlt cpu' hlt' _ _ _
    rw [hzero cpu hlt, hzero cpu' hlt']
  · intro a ha
    have hplace := h.inPlace (h.sleep_mem a ha).1
    rw [Place, (h.sleep_mem a ha).2.1] at hplace
    exact ⟨h.pool.live_lt a (h.sleep_mem a ha).1, hplace.2, h.priority a (h.sleep_mem a ha).1⟩
  · rintro a ⟨cpu, -, hmem⟩
    exact h.pool.live_lt a (h.ready_mem a hmem).1

/-- In a state whose tasks are control blocks of the pool, `tick_update` returns and conserves the
tasks: no sleeper is refused, those that are due are ready and queued, and the others sleep on.
On one CPU all states of the system are such states. -/
theorem tick_update_conserves (cfg : Config) :
    (∀ s rq sl, Pooled cfg s rq sl → ∃ s' rq' sl', tickUpdate cfg s = some s' ∧
      Conserved cfg s rq sl s' rq' sl' ∧ Pooled cfg s' rq' sl' ∧
      refusedSleepers cfg s none sl = []) ∧
    (cfg.maxCpus = 1 → ∀ s, Riscv.Reachable cfg s → ∃ rq sl, Pooled cfg s rq sl) := by
  constructor
  · intro s rq sl h
    rcases h.tickUpdate with ⟨s', rq', sl', hupdate, hpooled, -, hcons, hrefused, -⟩
    exact ⟨s', rq', sl', hupdate, hcons, hpooled, hrefused⟩
  · intro hcpu s hs
    rcases hs.allPlaced hcpu with ⟨lists, sl, fl, hplaced⟩
    exact ⟨_, sl, hplaced.pooled hcpu⟩

/-- Tasks 1 and 2 sleep until tick 0, and the other two tasks of the pool are ready. -/
def twoSleepers : State :=
  let s := init .small .blank
  let s := s.setTask 1 { s.heap 1 with state := .sleeping, next := some 2 }
  let s := s.setTask 2 { s.heap 2 with state := .sleeping }
  [0, 3].foldl (fun s p => (enqueueOn .small s 0 p).2) { s with sleepQueue := some 1 }

def lowest (_cpu i : ℕ) : List TaskPtr := if i = 0 then [0, 3] else []

theorem twoSleepers_pooled : Pooled .small twoSleepers lowest [1, 2] := by
  have hwf : (twoSleepers.cpuScheds 0).readyQueue.Wf twoSleepers.heap (lowest 0) :=
    ⟨by decide +kernel, by decide +kernel, by decide +kernel, by decide +kernel,
      by decide +kernel, by decide +kernel⟩
  refine ⟨⟨?_, by decide +kernel, ?_, ?_⟩, by decide +kernel, ?_⟩
  · intro cpu hcpu
    obtain rfl : cpu = 0 := Nat.lt_one_iff.mp hcpu
    exact hwf
  · rintro a ha ⟨cpu, -, hmem⟩
    have hapart : ∀ a ∈ [1, 2], a ∉ members (lowest 0) := by decide
    exact hapart a ha hmem
  · intro cpu hcpu cpu' hcpu' _ _ _
    rw [Nat.lt_one_iff.mp hcpu, Nat.lt_one_iff.mp hcpu']
  · rintro a ⟨cpu, -, hmem⟩
    have hblocks : ∀ a ∈ members (lowest 0), a < 4 := by decide
    exact hblocks a hmem

theorem sleepers_are_conserved :
    Pooled .small twoSleepers lowest [1, 2] ∧ ∃ s' rq' sl', tickUpdate .small twoSleepers = some s' ∧
      Conserved .small twoSleepers lowest [1, 2] s' rq' sl' := by
  rcases (tick_update_conserves .small).1 _ _ _ twoSleepers_pooled with
    ⟨s', rq', sl', hupdate, hcons, -⟩
  exact ⟨twoSleepers_pooled, s', rq', sl', hupdate, hcons⟩

end OpenIon.Sched
