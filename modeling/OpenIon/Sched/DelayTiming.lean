import OpenIon.Sched.TickConserves

/-! # When a delayed task wakes up

With `tick_update` once after each tick, a task that calls `delay(n)` should wake at the first
`tick_update` after `max(n, 1)` ticks. Whether it is due is decided by a wrapping difference
compared with half of the range of the counter, so a delay of more than `2 ^ 31 + 2` ticks is
taken for one that has passed. The other tasks and CPUs may do anything meanwhile that keeps
the lists consistent and leaves the sleeper alone; on one CPU all sections do.
-/
namespace OpenIon.Sched
open Lib

/-- What the rest of the system does while the task `c` sleeps. -/
def Others (cfg : Config) (c : TaskPtr) (s s' : State) : Prop :=
  s'.ticks = s.ticks ∧ ∀ rq sl, Pooled cfg s rq sl → c ∈ sl →
    ∃ rq' sl', Pooled cfg s' rq' sl' ∧ c ∈ sl' ∧ (s'.heap c).state = (s.heap c).state ∧
      (s'.heap c).wakeupTick = (s.heap c).wakeupTick

/-- One tick and the `tick_update` after it, with other activity before each of them. -/
def Period (cfg : Config) (c : TaskPtr) (s s' : State) : Prop :=
  ∃ a b, Others cfg c s a ∧ Others cfg c (timerTick a) b ∧ tickUpdate cfg b = some s'

def Asleep (cfg : Config) (c : TaskPtr) (wakeupTick : UInt32) (s : State) : Prop :=
  ∃ rq sl, Pooled cfg s rq sl ∧ c ∈ sl ∧ (s.heap c).state = .sleeping ∧
    (s.heap c).wakeupTick = wakeupTick

/-- The current task `c` is in no list and can be queued. -/
structure Awake (cfg : Config) (s : State) (rq : ℕ → ℕ → List TaskPtr) (sl : List TaskPtr)
    (c : TaskPtr) : Prop extends Pooled cfg s rq sl where
  current : s.currentTcb = some c
  not_sleeping : c ∉ sl
  not_ready : ¬ InQueues cfg rq c
  block_lt : c < cfg.taskCap
  unqueued : (s.heap c).queued = false
  priority_lt : (s.heap c).priority < maxPriorities

variable {cfg : Config} {s s' m : State} {rq rq' : ℕ → ℕ → List TaskPtr}
  {sl pre rest : List TaskPtr} {p a c : TaskPtr} {prev : Option TaskPtr} {w n : UInt32}

theorem Pooled.timerTick (h : Pooled cfg s rq sl) : Pooled cfg (timerTick s) rq sl :=
  ⟨⟨h.ready, h.sleep, h.apart, h.once⟩, h.sleeper, h.block⟩

/-- One period of a sleeper: it is woken if it is due after the tick, and sleeps on if not. -/
theorem Asleep.period (h : Asleep cfg c w s) (hp : Period cfg c s s') :
    s'.ticks = s.ticks + 1 ∧
      if isDue (s.ticks + 1) w then (s'.heap c).state = .ready else Asleep cfg c w s' := by
  rcases h with ⟨rq, sl, hpooled, hc, hstate, hwake⟩
  rcases hp with ⟨a, b, ⟨hta, ha⟩, ⟨htb, hb⟩, hupdate⟩
  rcases ha rq sl hpooled hc with ⟨rqa, sla, hpa, hca, hsa, hwa⟩
  rcases hb rqa sla hpa.timerTick hca with ⟨rqb, slb, hpb, hcb, hsb, hwb⟩
  rcases hpb.tickUpdate with ⟨d, rq', sl', heq, hpd, htd, -, -, hwoken⟩
  obtain rfl : d = s' := Option.some.inj (heq.symm.trans hupdate)
  have htime : b.ticks = s.ticks + 1 := by
    rw [htb, ← hta]
    rfl
  have hbwake : (b.heap c).wakeupTick = w := hwb.trans (hwa.trans hwake)
  have hbstate : (b.heap c).state = .sleeping := hsb.trans (hsa.trans hstate)
  have hc' := hwoken c hcb
  rw [State.isDue, htime, hbwake] at hc'
  refine ⟨htd.trans htime, ?_⟩
  split at hc'
  · rename_i hdue
    rwa [if_pos hdue]
  · rename_i hdue
    rw [if_neg hdue]
    refine ⟨rq', sl', hpd, hc'.1, ?_, ?_⟩
    · rw [hc'.2]
      exact hbstate
    · rw [hc'.2]
      exact hbwake

theorem Awake.delay (h : Awake cfg s rq sl c) (n : UInt32) :
    Asleep cfg c (s.ticks + n) (delay s n).2 ∧ (delay s n).2.ticks = s.ticks := by
  have hdelay : (Sched.delay s n).2 = { s.setTask c { s.heap c with
      state := .sleeping, wakeupTick := s.ticks + n, next := s.sleepQueue } with
      sleepQueue := some c } := by
    simp only [Sched.delay, h.current]
  rw [hdelay]
  set t : TaskControlBlock :=
    { s.heap c with state := .sleeping, wakeupTick := s.ticks + n, next := s.sleepQueue }
  have hother : ∀ a, a ≠ c → (s.heap.set c t) a = s.heap a := fun a ha => Heap.set_of_ne ha
  have hself : (s.heap.set c t) c = t := Heap.set_self
  refine ⟨⟨rq, c :: sl, ⟨⟨?_, ⟨rfl, ?_⟩, ?_, h.once⟩, ?_, h.block⟩, List.mem_cons_self, ?_, ?_⟩, rfl⟩
  · intro cpu hcpu
    exact (h.ready cpu hcpu).set (fun hmem => h.not_ready ⟨cpu, hcpu, hmem⟩) t
  · have hnext : (s.heap.set c t).next c = s.sleepQueue := by
      rw [Heap.next, hself]
    change Chain (s.heap.set c t).next ((s.heap.set c t).next c) sl
    rw [hnext]
    refine h.sleep.congr fun a ha => ?_
    rw [Heap.next, Heap.next, hother a fun heq => h.not_sleeping (heq ▸ ha)]
  · intro a ha
    rcases List.mem_cons.mp ha with rfl | ha
    · exact h.not_ready
    · exact h.apart a ha
  · intro a ha
    change a < cfg.taskCap ∧ ((s.heap.set c t) a).queued = false ∧
      ((s.heap.set c t) a).priority < maxPriorities
    rcases List.mem_cons.mp ha with rfl | ha
    · rw [hself]
      exact ⟨h.block_lt, h.unqueued, h.priority_lt⟩
    · rw [hother a fun heq => h.not_sleeping (heq ▸ ha)]
      exact h.sleeper a ha
  · change ((s.heap.set c t) c).state = .sleeping
    rw [hself]
  · change ((s.heap.set c t) c).wakeupTick = s.ticks + n
    rw [hself]

/-- After `k` ticks, up to the end of the delay, a task is due at the end, or when the rest of its
delay is more than half of the range. -/
theorem isDue_iff {t n : UInt32} {k : ℕ} (hk : 1 ≤ k) (hle : k ≤ max n.toNat 1) :
    isDue (t + UInt32.ofNat k) (t + n) = true ↔
      k = max n.toNat 1 ∨ 2 ^ 31 + 1 < n.toNat - k := by
  have hn := n.toNat_lt
  have ht := t.toNat_lt
  rw [isDue, decide_eq_true_iff, UInt32.lt_iff_toNat_lt, UInt32.toNat_sub, UInt32.toNat_add,
    UInt32.toNat_add, UInt32.toNat_ofNat']
  have hlit : (0x7FFFFFFF : UInt32).toNat = 0x7FFFFFFF := rfl
  rw [hlit]
  omega

theorem add_ofNat_succ (t : UInt32) (k : ℕ) : t + UInt32.ofNat k + 1 = t + UInt32.ofNat (k + 1) := by
  rw [UInt32.ofNat_add, UInt32.add_assoc]
  rfl

theorem Asleep.periods {σ : ℕ → State} {N k : ℕ} (h : Asleep cfg c w (σ 0))
    (hσ : ∀ k < N, Period cfg c (σ k) (σ (k + 1))) (hk : k ≤ N)
    (hnot : ∀ j, 1 ≤ j → j ≤ k → isDue ((σ 0).ticks + UInt32.ofNat j) w = false) :
    Asleep cfg c w (σ k) ∧ (σ k).ticks = (σ 0).ticks + UInt32.ofNat k := by
  induction k with
  | zero => exact ⟨h, by simp⟩
  | succ k ih =>
    rcases ih (by omega) (fun j hj hjk => hnot j hj (by omega)) with ⟨hk', hticks⟩
    rcases hk'.period (hσ k (by omega)) with ⟨hticks', hstep⟩
    rw [hticks, add_ofNat_succ] at hticks' hstep
    rw [hnot (k + 1) (by omega) le_rfl] at hstep
    exact ⟨by simpa using hstep, hticks'⟩

theorem Asleep.wakes {σ : ℕ → State} {N k : ℕ} (h : Asleep cfg c w (σ 0))
    (hσ : ∀ k < N, Period cfg c (σ k) (σ (k + 1))) (hk : k < N)
    (hnot : ∀ j, 1 ≤ j → j ≤ k → isDue ((σ 0).ticks + UInt32.ofNat j) w = false)
    (hdue : isDue ((σ 0).ticks + UInt32.ofNat (k + 1)) w = true) :
    ((σ (k + 1)).heap c).state = .ready := by
  rcases h.periods hσ hk.le hnot with ⟨hsleep, hticks⟩
  have hstep := (hsleep.period (hσ k hk)).2
  rwa [hticks, add_ofNat_succ, if_pos hdue] at hstep

section OneCpu

variable {op : Op} {ops : List Op} {run : Option TaskPtr} {lists : ℕ → List TaskPtr}
  {fl : List TaskPtr}

theorem Placed.awake (h : Placed cfg s run lists sl fl none) (hcpu : cfg.maxCpus = 1)
    (hc : s.currentTcb = some c) (hr : (s.heap c).state = .running) :
    Awake cfg s (fun _ => lists) sl c := by
  have htask := h.current_task c hc
  have hout := (h.takeRunning hc hr).2.2
  refine ⟨h.pooled hcpu, hc, hout.not_mem_sleep, ?_, h.pool.live_lt c htask, (hout.taken c rfl).2,
    h.priority c htask⟩
  rintro ⟨cpu, -, hmem⟩
  exact hout.not_mem_ready hmem

theorem Others.refl : Others cfg c s s := ⟨rfl, fun rq sl h hc => ⟨rq, sl, h, hc, rfl, rfl⟩⟩

theorem Others.trans (h : Others cfg c s m) (h' : Others cfg c m s') : Others cfg c s s' := by
  refine ⟨h'.1.trans h.1, ?_⟩
  intro rq sl hpooled hc
  rcases h.2 rq sl hpooled hc with ⟨rq₁, sl₁, hpooled₁, hc₁, hs₁, hw₁⟩
  rcases h'.2 rq₁ sl₁ hpooled₁ hc₁ with ⟨rq₂, sl₂, hpooled₂, hc₂, hs₂, hw₂⟩
  exact ⟨rq₂, sl₂, hpooled₂, hc₂, hs₂.trans hs₁, hw₂.trans hw₁⟩

/-- Every section but the tick and the update leaves a sleeper alone. -/
theorem Riscv.AllPlaced.others (h : Riscv.AllPlaced cfg s) (hcpu : cfg.maxCpus = 1)
    (hstep : Riscv.step cfg s op = some s') (htick : op ≠ .tick) (hupdate : op ≠ .tickUpdate) :
    Others cfg c s s' := by
  rcases h.step hcpu hstep with ⟨⟨lists', sl', fl', hplaced'⟩, m, -, hperf, hs'⟩
  have hticks : s'.ticks = m.ticks := by
    rw [hs']
    split <;> rfl
  have hheap : s'.heap = m.heap := by
    rw [hs']
    split <;> rfl
  refine ⟨hticks.trans (hperf.ticks htick), ?_⟩
  intro rq sl hpooled hc
  rcases h with ⟨lists, sl₀, fl, hplaced⟩
  obtain rfl : sl = sl₀ := hpooled.sleep.unique hplaced.sleep
  rcases hplaced.sleep_mem c hc with ⟨htask, hsleeping, -⟩
  have hsame := hperf.sleeping c htask hsleeping hupdate
  have htask' : s'.IsTask c := by
    have hm := hperf.task c htask
    rw [hs']
    split
    · exact hm
    · exact hm
  have hsleeping' : (s'.heap c).state = .sleeping := by
    rw [hheap, hsame]
    exact hsleeping
  have hplace := hplaced'.inPlace htask'
  rw [Place, hsleeping'] at hplace
  refine ⟨_, sl', hplaced'.pooled hcpu, hplace.1, hsleeping'.trans hsleeping.symm, ?_⟩
  rw [hheap, hsame]

theorem Riscv.AllPlaced.others_of_run (h : Riscv.AllPlaced cfg s) (hcpu : cfg.maxCpus = 1)
    (hops : ∀ op ∈ ops, op ≠ .tick ∧ op ≠ .tickUpdate)
    (hrun : Lib.run (Riscv.step cfg) s ops = some s') :
    Others cfg c s s' ∧ Riscv.AllPlaced cfg s' := by
  induction ops generalizing s with
  | nil =>
    obtain rfl : s = s' := Option.some.inj hrun
    exact ⟨.refl, h⟩
  | cons op ops ih =>
    rcases run_cons_eq_some.mp hrun with ⟨m, hm, hrest⟩
    rcases hops op List.mem_cons_self with ⟨htick, hupdate⟩
    rcases ih (h.step hcpu hm).1 (fun op hop => hops op (List.mem_cons_of_mem _ hop)) hrest with
      ⟨hothers, hplaced⟩
    exact ⟨(h.others hcpu hm htick hupdate).trans hothers, hplaced⟩

theorem Riscv.AllPlaced.period (h : Riscv.AllPlaced cfg s) (hcpu : cfg.maxCpus = 1)
    (hops : ∀ op ∈ ops, op ≠ .tick ∧ op ≠ .tickUpdate)
    (hrun : Lib.run (Riscv.step cfg) s (ops ++ [.tick, .tickUpdate]) = some s') :
    Period cfg c s s' ∧ Riscv.AllPlaced cfg s' := by
  rw [run_append] at hrun
  rcases Option.bind_eq_some_iff.mp hrun with ⟨m, hm, hlast⟩
  rcases h.others_of_run (c := c) hcpu hops hm with ⟨hothers, hplaced⟩
  rcases run_cons_eq_some.mp hlast with ⟨t, ht, hupdate⟩
  rcases run_cons_eq_some.mp hupdate with ⟨u, hu, hend⟩
  obtain rfl : u = s' := Option.some.inj hend
  refine ⟨⟨m, t, hothers, ?_, ?_⟩, ((hplaced.step hcpu ht).1.step hcpu hu).1⟩
  · obtain rfl : timerTick m = t := Option.some.inj ht
    exact .refl
  · rcases Option.map_eq_some_iff.mp hu with ⟨d, hd, rfl⟩
    exact hd

end OneCpu

/-- Of the first `max(n, 1)` updates after `delay(n)`, exactly the last one makes the task ready, if
and only if the delay is at most `2 ^ 31 + 2`. -/
theorem delay_on_time_iff (cfg : Config) (s : State) (rq : ℕ → ℕ → List TaskPtr)
    (sl : List TaskPtr) (c : TaskPtr) (h : Awake cfg s rq sl c) (n : UInt32) (σ : ℕ → State)
    (h0 : σ 0 = (delay s n).2) (hσ : ∀ k < max n.toNat 1, Period cfg c (σ k) (σ (k + 1))) :
    (∀ k, 1 ≤ k → k ≤ max n.toNat 1 →
        (((σ k).heap c).state = .ready ↔ k = max n.toNat 1)) ↔ n.toNat ≤ 2 ^ 31 + 2 := by
  rcases h.delay n with ⟨hasleep, hticks⟩
  rw [← h0] at hasleep hticks
  rw [← hticks] at hasleep
  constructor
  · intro hontime
    by_contra hlong
    have hfirst : ((σ (0 + 1)).heap c).state = .ready :=
      hasleep.wakes hσ (by omega) (fun j hj hj' => by omega)
        ((isDue_iff le_rfl (by omega)).mpr (.inr (by omega)))
    have hone := (hontime 1 le_rfl (by omega)).mp hfirst
    omega
  · intro hshort k hk hle
    have hnot : ∀ j, 1 ≤ j → j < max n.toNat 1 →
        isDue ((σ 0).ticks + UInt32.ofNat j) ((σ 0).ticks + n) = false := by
      intro j hj hlt
      rw [Bool.eq_false_iff, ne_eq, isDue_iff hj (by omega)]
      omega
    constructor
    · intro hready
      by_contra hne
      have hsleep := (hasleep.periods hσ hle fun j hj hjk => hnot j hj (by omega)).1
      rcases hsleep with ⟨-, -, -, -, hstate, -⟩
      simp [hready] at hstate
    · intro hlast
      obtain ⟨k, rfl⟩ : ∃ i, k = i + 1 := ⟨k - 1, by omega⟩
      exact hasleep.wakes hσ (by omega) (fun j hj hlt => hnot j hj (by omega))
        ((isDue_iff hk hle).mpr (.inl hlast))

def rootRuns : Option State :=
  Riscv.system .small (.ofPriority 0) (.ofPriority 1) .blank [.schedule]

/-- A delay of `2 ^ 31 + 3` ticks is over after the first one. -/
theorem long_delay_wakes_at_once :
    ∃ s rq sl s', rootRuns = some s ∧ Awake .small s rq sl 1 ∧
      tickUpdate .small (timerTick (delay s 2147483651).2) = some s' ∧
      (s'.heap 1).state = .ready := by
  have htest : rootRuns.any (fun s => decide (s.currentTcb = some 1 ∧
      (s.heap 1).state = .running) && (tickUpdate .small (timerTick (delay s 2147483651).2)).any
        fun s' => decide ((s'.heap 1).state = .ready)) = true := by
    decide +kernel
  rcases (Option.any_eq_true _ _).mp htest with ⟨s, hs, hfacts⟩
  rcases Bool.and_eq_true_iff.mp hfacts with ⟨hroot, hupdate⟩
  rcases of_decide_eq_true hroot with ⟨hc, hr⟩
  rcases (Option.any_eq_true _ _).mp hupdate with ⟨s', hs', hready⟩
  have hreach : Riscv.Reachable .small s := ⟨_, _, _, _, hs⟩
  rcases hreach.allPlaced rfl with ⟨lists, sl, fl, hplaced⟩
  exact ⟨s, _, sl, s', hs, hplaced.awake rfl hc hr, hs', of_decide_eq_true hready⟩

/-- The states after each update when the processor is given away before each tick. -/
def rounds (cfg : Config) (s : State) : ℕ → State
  | 0 => s
  | k + 1 => (Lib.run (Riscv.step cfg) (rounds cfg s k) [.schedule, .tick, .tickUpdate]).getD s

theorem short_delay_on_time :
    ∃ s, rootRuns = some s ∧ ((rounds .small (delay s 2).2 1).heap 1).state ≠ .ready ∧
      ((rounds .small (delay s 2).2 2).heap 1).state = .ready := by
  have htest : rootRuns.any (fun s => decide (s.currentTcb = some 1 ∧
      (s.heap 1).state = .running ∧ ∀ k < 2, (Lib.run (Riscv.step .small)
        (rounds .small (delay s 2).2 k) [.schedule, .tick, .tickUpdate]).isSome = true)) = true := by
    decide +kernel
  rcases (Option.any_eq_true _ _).mp htest with ⟨s, hs, hfacts⟩
  rcases of_decide_eq_true hfacts with ⟨hc, hr, hsome⟩
  have hreach : Riscv.Reachable .small s := ⟨_, _, _, _, hs⟩
  rcases hreach.allPlaced rfl with ⟨lists, sl, fl, hplaced⟩
  have hdelay : Riscv.AllPlaced .small (delay s 2).2 := ⟨lists, 1 :: sl, fl, by
    have hd := hplaced.delay hc hr 2
    rw [hd.2.2.2.1]
    exact hd.1⟩
  have hround : ∀ k < 2, Riscv.AllPlaced .small (rounds .small (delay s 2).2 k) →
      Period .small 1 (rounds .small (delay s 2).2 k) (rounds .small (delay s 2).2 (k + 1)) ∧
        Riscv.AllPlaced .small (rounds .small (delay s 2).2 (k + 1)) := by
    intro k hk h
    rcases Option.isSome_iff_exists.mp (hsome k hk) with ⟨s', hs'⟩
    have hrun : Lib.run (Riscv.step .small) (rounds .small (delay s 2).2 k)
        ([.schedule] ++ [.tick, .tickUpdate]) = some s' := hs'
    rw [rounds, hs']
    exact h.period rfl (by simp) hrun
  have hperiods : ∀ k < 2, Period .small 1 (rounds .small (delay s 2).2 k)
      (rounds .small (delay s 2).2 (k + 1)) := by
    intro k hk
    obtain rfl | rfl : k = 0 ∨ k = 1 := by omega
    · exact (hround 0 hk hdelay).1
    · exact (hround 1 hk (hround 0 (by decide) hdelay).2).1
  have hontime := (delay_on_time_iff .small s _ sl 1 (hplaced.awake rfl hc hr) 2
    (rounds .small (delay s 2).2) rfl hperiods).mpr (by decide)
  exact ⟨s, hs, fun hready => absurd ((hontime 1 (by decide) (by decide)).mp hready) (by decide),
    (hontime 2 (by decide) (by decide)).mpr (by decide)⟩

end OpenIon.Sched
