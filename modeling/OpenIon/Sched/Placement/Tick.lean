import OpenIon.Sched.Placement.Enqueue
import OpenIon.Sched.Placement.Sleep

/-! # Waking the sleepers that are due

`tickUpdate` walks the sleep list once. The tasks that are due are enqueued in
the order of the list, the others stay in it in their order.
-/
namespace OpenIon.Sched
open Lib

variable {cfg : Config} {s s' : State} {run : Option TaskPtr} {rq : ℕ → List TaskPtr}
  {sl fl keep rest : List TaskPtr} {p : TaskPtr}

theorem Relinked.frame (h : Relinked s s') : Frame s s' ∅ := by
  refine ⟨?_, ?_, ?_, ?_, by rw [h.cpuScheds]⟩
  · intro a ha
    rw [State.IsTask, h.pool]
    exact ha
  · intro a _
    rw [h.link a]
  · intro a _
    rw [h.link a]
  · intro a _ _
    exact h.link a

theorem Placed.wakeSleeper (h : Placed cfg s run rq (keep ++ p :: rest) fl none)
    (hcpu : cfg.maxCpus = 1) :
    Placed cfg (wakeSleeper cfg s keep.getLast? p) run
      (pushed (wakeSleeper cfg s keep.getLast? p).heap rq p) (keep ++ rest) fl none ∧
      Enqueued s (wakeSleeper cfg s keep.getLast? p) p := by
  have hp := h.sleep_mem p (by simp)
  have hrel : Relinked s (unlinkSleeper s keep.getLast? (s.heap p).next) := by
    apply unlinkSleeper_relinked
    intro b hb
    exact (h.sleep_mem b (List.mem_append_left _ (List.mem_of_getLast? hb))).2.1
  have hout := h.takeSleeper
  set m := unlinkSleeper s keep.getLast? (s.heap p).next with hm
  have hready := hout.modify (t := { m.heap p with state := .ready, next := none })
    (hout.taken p rfl).2 (hout.priority p (hout.taken p rfl).1)
  rcases hready.enqueueOn (by simp) (by simp) with ⟨s', henq, hplaced, he⟩
  have hwake : Sched.wakeSleeper cfg s keep.getLast? p = s' := by
    simp only [Sched.wakeSleeper, ← hm, selectCpuForTask_single hcpu, henq, if_true]
  have hf : Frame s (m.setTask p { m.heap p with state := .ready, next := none }) {p} :=
    (hrel.frame.mono (Set.empty_subset _)).trans (Frame.setTask rfl rfl)
  rw [hwake]
  refine ⟨hplaced, hf.trans he.toFrame, ?_, he.isTask, he.ready, ?_, ?_, ?_, he.preemptPending⟩
  · simp [hp.2.1]
  · rw [he.currentTcb]
    exact hrel.currentTcb
  · rw [he.nextTcb]
    exact hrel.nextTcb
  · rw [he.ticks]
    exact hrel.ticks

def dueTasks (s : State) (l : List TaskPtr) : List TaskPtr :=
  l.filter fun a => isDue s.ticks (s.heap a).wakeupTick

def laterTasks (s : State) (l : List TaskPtr) : List TaskPtr :=
  l.filter fun a => !isDue s.ticks (s.heap a).wakeupTick

/-- The rule for the loop over the sleep list, from any point of it: `pre` is the part already
passed. The invariant is about the list and some ghost `x`, and `Q` about the tasks woken. -/
theorem tickLoop_rule {X : Type*} (Inv : State → X → List TaskPtr → Prop)
    (Q : State → X → List TaskPtr → State → X → Prop)
    (hchain : ∀ s x l, Inv s x l → Chain s.heap.next s.sleepQueue l) (hnil : ∀ s x, Q s x [] s x)
    (hwake : ∀ s x pre p rest, Inv s x (pre ++ p :: rest) →
      ∃ y, Inv (wakeSleeper cfg s pre.getLast? p) y (pre ++ rest) ∧
        (∀ a ∈ rest, a ≠ p → isDue (wakeSleeper cfg s pre.getLast? p).ticks
          ((wakeSleeper cfg s pre.getLast? p).heap a).wakeupTick =
            isDue s.ticks (s.heap a).wakeupTick) ∧
        ∀ due s' z, p ∉ due → Q (wakeSleeper cfg s pre.getLast? p) y due s' z → Q s x (p :: due) s' z)
    {x : X} (pre : List TaskPtr) {fuel : ℕ} (h : Inv s x (pre ++ rest))
    (hfuel : rest.length ≤ fuel) :
    ∃ s' y, tickLoop cfg fuel s pre.getLast? rest.head? = some s' ∧
      Inv s' y (pre ++ laterTasks s rest) ∧ Q s x (dueTasks s rest) s' y := by
  induction rest generalizing s x pre fuel with
  | nil =>
    refine ⟨s, x, ?_, h, hnil s x⟩
    rw [List.head?_nil, tickLoop]
  | cons p rest ih =>
    cases fuel with
    | zero => simp at hfuel
    | succ fuel =>
      have hlen : rest.length ≤ fuel := by simpa using hfuel
      have hnext : (s.heap p).next = rest.head? := by
        rcases chain_append.mp (hchain s x _ h) with ⟨m, -, hm⟩
        exact Chain.head_eq hm.2
      rw [List.head?_cons, tickLoop]
      by_cases hdue : isDue s.ticks (s.heap p).wakeupTick = true
      · rcases hwake s x pre p rest h with ⟨y, hinv, hsame, hcons⟩
        rcases ih pre hinv hlen with ⟨s', z, hloop, hend, hq⟩
        have hp : p ∉ rest :=
          (List.nodup_cons.mp (List.nodup_append.mp (hchain s x _ h).nodup).2.1).1
        have hsame := fun a ha => hsame a ha fun heq => hp (heq ▸ ha)
        have hduel : dueTasks (wakeSleeper cfg s pre.getLast? p) rest = dueTasks s rest :=
          List.filter_congr hsame
        have hlater : laterTasks (wakeSleeper cfg s pre.getLast? p) rest = laterTasks s rest :=
          List.filter_congr fun a ha => congrArg (!·) (hsame a ha)
        rw [hlater] at hend
        rw [hduel] at hq
        refine ⟨s', z, ?_, ?_, ?_⟩
        · rw [if_pos hdue, hnext]
          exact hloop
        · rwa [laterTasks, List.filter_cons_of_neg (by simp [hdue])]
        · rw [show dueTasks s (p :: rest) = p :: dueTasks s rest by simp [dueTasks, hdue]]
          exact hcons _ s' z (fun hmem => hp (List.mem_of_mem_filter hmem)) hq
      · have hpassed : Inv s x ((pre ++ [p]) ++ rest) := by
          rw [List.append_assoc]
          exact h
        rcases ih (pre ++ [p]) hpassed hlen with ⟨s', y, hloop, hend, hq⟩
        refine ⟨s', y, ?_, ?_, ?_⟩
        · rw [if_neg hdue, hnext, ← hloop, List.getLast?_append]
          rfl
        · rw [laterTasks, List.filter_cons_of_pos (by simp [hdue])]
          rwa [List.append_assoc] at hend
        · rwa [show dueTasks s (p :: rest) = dueTasks s rest by simp [dueTasks, hdue]]

theorem Placed.sleep_length_le (h : Placed cfg s run rq sl fl none) : sl.length ≤ cfg.taskCap := by
  apply length_le_of_nodup h.sleep.nodup
  intro a ha
  exact h.pool.live_lt a (h.sleep_mem a ha).1

/-- `tick_update` returns, and enqueues exactly the sleepers that are due. -/
theorem Placed.tickUpdate (h : Placed cfg s run rq sl fl none) (hcpu : cfg.maxCpus = 1) :
    ∃ s' rq', tickUpdate cfg s = some s' ∧ Placed cfg s' run rq' (laterTasks s sl) fl none ∧
      EnqueuedAll s (dueTasks s sl) s' := by
  rw [Sched.tickUpdate, h.sleep.head_eq]
  refine tickLoop_rule (fun s rq sl => Placed cfg s run rq sl fl none)
    (fun s _ due s' _ => EnqueuedAll s due s') (fun _ _ _ h => h.sleep) (fun s _ => .nil s) ?_ [] h
    h.sleep_length_le
  intro s rq pre p rest h
  rcases h.wakeSleeper hcpu with ⟨hplaced, he⟩
  refine ⟨_, hplaced, fun a ha hap => ?_, fun _ _ _ _ hall => .cons he hall⟩
  rw [he.ticks, he.other a (h.sleep_mem a (by simp [ha])).1 hap]

end OpenIon.Sched
