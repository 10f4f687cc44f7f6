import OpenIon.Sched.WaitQueue
import OpenIon.Sched.Riscv.Places

/-! # Tasks parked in a wait queue

On one CPU the tasks in a wait queue are blocked: a task blocks in the section that
enqueues it, and nothing but a wake by the owner of the queue readies it again. So
`wake_one` always wakes the task it takes out of the queue.
-/
namespace OpenIon.Sched

/-- The scheduler's invariant holds and the queue has the blocked tasks of the list `l`. -/
structure Parked {N : ℕ} (cfg : Config) (s : State) (q : WaitQueueInner N) (l : List TaskPtr) :
    Prop where
  placed : Riscv.AllPlaced cfg s
  holds : q.Holds l
  blocked : ∀ p ∈ l, s.IsTask p ∧ (s.heap p).state = .blocked

variable {N : ℕ} {cfg : Config} {s s' : State} {q : WaitQueueInner N} {l : List TaskPtr}
  {c p : TaskPtr}

/-- The first waiter is blocked, so `wake_one` wakes it and leaves the others blocked. -/
theorem Parked.wakeOne_cons (h : Parked cfg s q (p :: l)) (hcpu : cfg.maxCpus = 1) :
    ∃ s' q', wakeOne cfg s q = (true, s', q') ∧ Parked cfg s' q' l := by
  rcases h.placed with ⟨rq, sl, fl, hplaced⟩
  rcases h.holds.popFront_cons with ⟨q', hpop, hq⟩
  have hp := h.blocked p List.mem_cons_self
  rcases hplaced.wakeBlockedTask hcpu hp.1 hp.2 with ⟨s', hwake, hs, he⟩
  refine ⟨s', { q' with wakes := q'.wakes + 1 }, ?_, ⟨_, _, _, he.currentTcb ▸ hs⟩, ?_, ?_⟩
  · simp only [wakeOne, hpop, hwake, if_true]
  · exact ⟨hq.cells, hq.len, hq.le, hq.nodup⟩
  · intro a ha
    have hne : a ≠ p := by
      rintro rfl
      exact (List.nodup_cons.mp h.holds.nodup).1 ha
    have hold := h.blocked a (List.mem_cons_of_mem _ ha)
    exact ⟨he.task a hold.1, by rw [he.state hold.1 hne, hold.2]⟩

theorem Parked.wakeOne_nil (h : Parked cfg s q []) : wakeOne cfg s q = (false, s, q) := by
  simp only [wakeOne, h.holds.popFront_nil]

/-- The running task blocks at the end of the queue, or finds it full. -/
theorem Parked.enqueueCurrent (h : Parked cfg s q l) (hcur : s.currentTcb = some c)
    (hr : (s.heap c).state = .running) :
    enqueueCurrent s q = (false, q) ∨ ∃ s' q', enqueueCurrent s q = (true, q') ∧
      blockCurrentTaskIrqDisabled s = (true, s') ∧ Parked cfg s' q' (l ++ [c]) := by
  have hnot : c ∉ l := by
    intro hmem
    have hb := (h.blocked c hmem).2
    simp [hr] at hb
  by_cases hlen : l.length < N
  · right
    rcases h.holds.push hnot hlen with ⟨q', hpush, hq⟩
    rcases h.placed with ⟨rq, sl, fl, hplaced⟩
    rcases hplaced.blockCurrentTaskIrqDisabled hcur hr with ⟨s', hblock, hs, hf, hb, hcur', -⟩
    refine ⟨s', q', ?_, hblock, ⟨rq, sl, fl, hcur' ▸ hs⟩, hq, ?_⟩
    · simp only [Sched.enqueueCurrent, hcur, hpush]
    · intro p hp
      rcases List.mem_append.mp hp with hp | hp
      · have hold := h.blocked p hp
        have hpc : p ≠ c := ne_of_mem_of_not_mem hp hnot
        exact ⟨hf.task p hold.1, by rw [hf.state hold.1 hpc, hold.2]⟩
      · rw [List.mem_singleton.mp hp]
        exact ⟨hf.task c (hplaced.current_task c hcur), hb⟩
  · left
    simp only [Sched.enqueueCurrent, hcur, h.holds.push_refused (p := c) (.inr (by omega))]

/-- Scheduler sections that do not wake the waiters leave them blocked. -/
theorem Parked.sched (h : Parked cfg s q l) (hcpu : cfg.maxCpus = 1) {op : Op}
    (hop : ∀ p ∈ l, op ≠ .wake (some p)) (hs : Riscv.step cfg s op = some s') :
    Parked cfg s' q l := by
  rcases h.placed.step hcpu hs with ⟨hplaced, m, -, hperf, rfl⟩
  refine ⟨hplaced, h.holds, ?_⟩
  intro p hp
  have hold := h.blocked p hp
  have hm : m.IsTask p ∧ (m.heap p).state = .blocked :=
    ⟨hperf.task p hold.1, hperf.blocked p hold.1 hold.2 (hop p hp)⟩
  split
  · exact hm
  · exact hm

theorem Parked.current_lt (h : Parked cfg s q l) (hcur : s.currentTcb = some c) :
    c < cfg.taskCap := by
  rcases h.placed with ⟨rq, sl, fl, hplaced⟩
  exact hplaced.pool.live_lt c (hplaced.current_task c hcur)

theorem Parked.new {idle root : TaskArgs} {uninit : Heap} (hcpu : cfg.maxCpus = 1)
    (hs : initSystemTasks cfg idle root (init cfg uninit) = some s) :
    Parked cfg s (WaitQueueInner.new N) [] := by
  rcases initSystemTasks_placed hcpu hs with ⟨rq, fl, h, -, hcur, -⟩
  exact ⟨⟨rq, [], fl, hcur ▸ h⟩, WaitQueueInner.new_holds, (by simp)⟩

end OpenIon.Sched
