import OpenIon.Sched.Async.Machine

/-! # Lost wakes of the executor

While a future is polled its slot is empty, and `mark_ready` ignores empty slots.
A wake for a task that arrives during its poll is therefore lost when the poll
returns `Pending`, from whichever of the sources it comes.
-/
namespace OpenIon.Sched.Async
open Lib

variable {M N : ℕ} {asyncRt : Bool} {cfg : Config} {w w' : World M N} {act : Act}
  {e m : Executor N ℕ} {idx : ℕ}

/-- The future in the slot, if there is one, is marked ready if it was woken since it was taken
for its last poll. -/
def Executor.KeepsWake (e : Executor N ℕ) (idx : ℕ) : Prop :=
  (e.slots idx).future.isSome = true → e.woken idx = true → (e.slots idx).ready = true

def WakesKept (w : World M N) : Prop := ∀ idx < N, w.exec.KeepsWake idx

/-- A poll returns `Pending` only if no wake for its task has been issued since it was taken, or
if a spawn has filled the slot in the meantime. -/
def PendsUnwoken (w : World M N) : Act → Prop
  | .pollReturns .pending =>
    ∀ idx ∈ w.phase.currentPollTask, w.exec.isFree idx = true → w.exec.woken idx = false
  | _ => True

instance (w : World M N) : (act : Act) → Decidable (PendsUnwoken w act)
  | .pollReturns .pending => inferInstanceAs (Decidable
      (∀ idx ∈ w.phase.currentPollTask, w.exec.isFree idx = true → w.exec.woken idx = false))
  | .pollReturns .ready => isTrue trivial
  | .spawn _ | .pollOnce | .advance | .wakeTask _ | .tickUpdate | .signal _ | .clear _
  | .eventWait _ | .eventLeave _ _ | .pollSleep _ | .pollEvent _ _ | .dropEvent _ _ | .sched _ =>
    isTrue trivial

def Executor.ReadyIfFull (e : Executor N ℕ) (idx : ℕ) : Prop :=
  (e.slots idx).ready = (e.slots idx).future.isSome

/-- No wake is lost, and the slot of the task that is polled is ready only if a spawn filled it. -/
structure Heard (w : World M N) : Prop where
  kept : WakesKept w
  polling : ∀ idx ∈ w.phase.currentPollTask, idx < N ∧ w.exec.ReadyIfFull idx

theorem Woke.keepsWake (h : Woke e m) (hkeep : e.KeepsWake idx) : m.KeepsWake idx := by
  induction h with
  | refl => exact hkeep
  | sleep i slot _ ih => exact ih
  | mark j _ ih =>
    rw [Executor.KeepsWake, Executor.slots_markReady, Executor.woken_markReady]
    intro hfuture hwoken
    rcases Bool.or_eq_true_iff.mp hwoken with hold | hnew
    · simp [ih hfuture hold]
    · simp [hnew, hfuture]

theorem Woke.readyIfFull (h : Woke e m) (hready : e.ReadyIfFull idx) : m.ReadyIfFull idx := by
  induction h with
  | refl => exact hready
  | sleep i slot _ ih => exact ih
  | mark j _ ih =>
    rw [Executor.ReadyIfFull] at ih
    rw [Executor.ReadyIfFull, Executor.slots_markReady]
    simp only [ih]
    cases (_ : Option ℕ).isSome <;> simp

theorem Executor.KeepsWake.takeSlot {j : ℕ} (h : e.KeepsWake idx) : (e.takeSlot j).KeepsWake idx := by
  by_cases hj : idx = j
  · simp [KeepsWake, Executor.takeSlot, setWoken, setSlot, hj]
  · simpa [KeepsWake, Executor.takeSlot, setWoken, setSlot, hj] using h

theorem Executor.KeepsWake.complete {j : ℕ} (h : e.KeepsWake idx) : (e.complete j).KeepsWake idx := by
  rw [complete_eq]
  by_cases hj : idx = j
  · simp [KeepsWake, setWoken, setSlot, hj]
  · simpa [KeepsWake, setWoken, setSlot, hj] using h

/-- The future that is put back is ready exactly if a spawn has filled the slot meanwhile. -/
theorem Executor.keepsWake_putBack {f : ℕ} (hready : e.ReadyIfFull idx) :
    (e.putBack idx f).KeepsWake idx ↔ (e.isFree idx = true → e.woken idx = false) := by
  rw [ReadyIfFull] at hready
  simp only [KeepsWake, putBack, setSlot, Function.update_self, hready, isFree]
  cases (e.slots idx).future with
  | none => simp
  | some g => simp

theorem Executor.KeepsWake.putBack_of_ne {j f : ℕ} (h : e.KeepsWake idx) (hne : idx ≠ j) :
    (e.putBack j f).KeepsWake idx := by
  simpa [KeepsWake, putBack, setSlot, hne] using h

theorem Heard.move (h : Heard w) (hmove : Move asyncRt w act w') (hok : PendsUnwoken w act) :
    Heard w' := by
  cases hmove with
  | woke _ _ hexec hphase =>
    constructor
    · intro idx hidx
      exact hexec.keepsWake (h.kept idx hidx)
    · intro idx hidx
      rw [hphase] at hidx
      exact ⟨(h.polling idx hidx).1, hexec.readyIfFull (h.polling idx hidx).2⟩
  | spawn name j _ hlt =>
    constructor
    · intro idx hidx
      by_cases hj : idx = j
      · simp [Executor.KeepsWake, World.spawnAt, Executor.setSlot, hj]
      · simpa [Executor.KeepsWake, World.spawnAt, Executor.setSlot, hj] using h.kept idx hidx
    · intro idx hidx
      refine ⟨(h.polling idx hidx).1, ?_⟩
      by_cases hj : idx = j
      · simp [Executor.ReadyIfFull, World.spawnAt, Executor.setSlot, hj]
      · simpa [Executor.ReadyIfFull, World.spawnAt, Executor.setSlot, hj]
          using (h.polling idx hidx).2
  | scan _ phase _ hafter => exact ⟨h.kept, by simp [hafter]⟩
  | reset j polled =>
    refine ⟨?_, (by rintro _ ⟨⟩)⟩
    intro idx hidx
    exact (h.kept idx hidx).takeSlot
  | take j f polled _ hlt =>
    constructor
    · intro idx hidx
      exact (h.kept idx hidx).takeSlot
    · rintro _ ⟨⟩
      exact ⟨hlt, by simp [Executor.ReadyIfFull, Executor.takeSlot, Executor.setWoken, Executor.setSlot]⟩
  | pollReturns j f polled result hphase =>
    have hj : j ∈ w.phase.currentPollTask := by
      rw [hphase]
      rfl
    cases result with
    | ready =>
      refine ⟨?_, (by rintro _ ⟨⟩)⟩
      intro idx hidx
      exact (h.kept idx hidx).complete
    | pending =>
      refine ⟨?_, (by rintro _ ⟨⟩)⟩
      intro idx hidx
      by_cases hne : idx = j
      · subst hne
        exact (Executor.keepsWake_putBack (h.polling idx hj).2).mpr (hok idx hj)
      · exact (h.kept idx hidx).putBack_of_ne hne

/-- A wake that came while the slot was empty is lost when the future is put back. -/
theorem Heard.not_wakesKept (h : Heard w) (hstep : step asyncRt cfg w act = some w')
    (hbad : ¬ PendsUnwoken w act) : ¬ WakesKept w' := by
  cases act with
  | pollReturns result =>
    cases result with
    | ready => exact absurd trivial hbad
    | pending =>
      rcases step_pollReturns hstep with ⟨j, f, polled, hphase, rfl⟩
      intro hkept
      apply hbad
      intro idx hidx
      have hj : idx = j := by
        rw [hphase] at hidx
        exact (Option.some.inj hidx).symm
      subst hj
      rcases h.polling idx hidx with ⟨hlt, hready⟩
      exact (Executor.keepsWake_putBack hready).mp (hkept idx hlt)
  | _ => exact absurd trivial hbad

/-- In a run of the executor from its start no wake is lost exactly if no poll returns `Pending`
after a wake for its task. -/
theorem wakes_kept_iff (M N : ℕ) (asyncRt : Bool) (cfg : Config) (s : State) (acts : List Act) :
    Always (step asyncRt cfg) WakesKept (World.new M N s) acts ↔
      Along (step asyncRt cfg) PendsUnwoken (World.new M N s) acts := by
  apply always_iff_along (P := Heard) (fun w h => h.kept)
  · intro w act w' h hok hstep
    exact h.move (step_move hstep) hok
  · intro w act w' h hbad hstep
    exact h.not_wakesKept hstep hbad
  · exact ⟨fun idx _ => by rintro ⟨⟩, by rintro _ ⟨⟩⟩

/-- A task registers for an event, the interrupt that signals it comes before the task is back in
its slot, and the task is not marked ready although the event is signaled. -/
theorem signal_during_poll_is_lost :
    ∃ s w, initSystemTasks .small (.ofPriority 0) (.ofPriority 1) (init .small .blank) = some s ∧
      run (step true .small) (World.new 1 2 s) [.spawn "rx-counter", .pollOnce, .advance,
        .pollEvent 0 none, .signal 0, .pollReturns .pending] = some w ∧
      (w.events 0).signaled = true ∧ ¬ WakesKept w := by
  have htest : ((initSystemTasks .small (.ofPriority 0) (.ofPriority 1) (init .small .blank)).bind
      fun s => run (step true .small) (World.new 1 2 s) [.spawn "rx-counter", .pollOnce, .advance,
        .pollEvent 0 none, .signal 0, .pollReturns .pending]).any (fun w => decide
          ((w.events 0).signaled = true ∧ (w.exec.slots 0).future.isSome = true ∧
            w.exec.woken 0 = true ∧ (w.exec.slots 0).ready = false)) = true := by
    decide +kernel
  rcases (Option.any_eq_true _ _).mp htest with ⟨w, hw, hfacts⟩
  rcases Option.bind_eq_some_iff.mp hw with ⟨s, hs, hrun⟩
  rcases of_decide_eq_true hfacts with ⟨hsignaled, hfuture, hwoken, hready⟩
  refine ⟨s, w, hs, hrun, hsignaled, ?_⟩
  intro hkept
  have hlost := hkept 0 (by decide) hfuture hwoken
  simp [hready] at hlost

end OpenIon.Sched.Async
