import OpenIon.Sched.Async.Owner
import OpenIon.Lib.Sum
import Mathlib.Data.UInt

/-! # Lost tasks of the executor

`spawn` looks for a slot without a future, and the slot of the task that is being
polled is one. When the spawned future takes that slot it has two owners, and one
of them is lost at the end of the poll.
-/
namespace OpenIon.Sched.Async
open Lib

variable {M N : ℕ} {asyncRt : Bool} {cfg : Config} {w w' : World M N} {act : Act}
  {e m : Executor N ℕ} {idx f : ℕ}

def World.liveCount (w : World M N) : ℕ := w.exec.activeCount + w.phase.currentPollTask.toList.length

/-- Every live future is in the executor, in a slot of its own and marked ready until its first
poll, and the counters agree with the number of live futures. -/
structure NoTaskLost (w : World M N) : Prop where
  kept : ∀ f, w.Live f → w.home f < N ∧
    ((w.exec.slots (w.home f)).future = some f ∨ w.phase.polledAt (w.home f) = some f)
  ready : ∀ f, w.Live f → w.started f = false →
    (w.exec.slots (w.home f)).future = some f ∧ (w.exec.slots (w.home f)).ready = true
  apart : ∀ f g, w.Live f → w.Live g → w.home f = w.home g → f = g
  counted : w.exec.spawned - w.exec.completed = UInt64.ofNat w.liveCount

/-- A task is spawned during the poll of slot `idx` only if a slot before `idx` is free. -/
def SpawnsBelowPoll (w : World M N) : Act → Prop
  | .spawn _ => ∀ idx ∈ w.phase.currentPollTask, ∃ j < idx, w.exec.isFree j = true
  | _ => True

/-- What holds as long as no future is put into the slot of the polled one. -/
structure Homed (asyncRt : Bool) (w : World M N) : Prop extends Owned w where
  enabled : 0 < w.accepted → asyncRt = true
  unstarted : ∀ f, w.accepted ≤ f → w.started f = false
  polled : ∀ idx f, w.phase.polledAt idx = some f →
    (w.exec.slots idx).future = none ∧ w.started f = true
  ready : ∀ f, w.Live f → w.started f = false → (w.exec.slots (w.home f)).ready = true
  counted : w.exec.spawned - w.exec.completed = UInt64.ofNat w.liveCount

theorem Homed.kept (h : Homed asyncRt w) (hf : w.Live f) :
    (w.exec.slots (w.home f)).future = some f ∨ w.phase.polledAt (w.home f) = some f := by
  have howner := (h.owner (w.home f) f).mpr ⟨hf, rfl⟩
  rw [World.owner, Option.or_eq_some_iff] at howner
  exact howner.imp_right And.right

theorem Homed.future_of_unstarted (h : Homed asyncRt w) (hf : w.Live f)
    (hstart : w.started f = false) : (w.exec.slots (w.home f)).future = some f := by
  rcases h.kept hf with hslot | hpoll
  · exact hslot
  · have hstarted := (h.polled _ _ hpoll).2
    simp [hstart] at hstarted

theorem Homed.noTaskLost (h : Homed asyncRt w) : NoTaskLost w := by
  constructor
  · intro f hf
    exact ⟨h.home_lt f hf, h.kept hf⟩
  · intro f hf hstart
    exact ⟨h.future_of_unstarted hf hstart, h.ready f hf hstart⟩
  · intro f g hf hg hhome
    have howner := (h.owner (w.home f) f).mpr ⟨hf, rfl⟩
    rw [(h.owner (w.home f) g).mpr ⟨hg, hhome.symm⟩] at howner
    exact (Option.some.inj howner).symm
  · exact h.counted

theorem Executor.activeCount_setSlot (hidx : idx < N) (slot : AsyncSlot ℕ) :
    (e.setSlot idx slot).activeCount + (e.slots idx).future.isSome.toNat =
      e.activeCount + slot.future.isSome.toNat := by
  simp only [activeCount, countP_range, setSlot]
  exact sum_range_update (fun s : AsyncSlot ℕ => s.future.isSome.toNat) hidx e.slots slot

structure Executor.SameFutures (e m : Executor N ℕ) : Prop where
  future : ∀ idx, (m.slots idx).future = (e.slots idx).future
  ready : ∀ idx, (e.slots idx).future.isSome = true → (e.slots idx).ready = true →
    (m.slots idx).ready = true
  spawned : m.spawned = e.spawned
  completed : m.completed = e.completed

theorem Executor.markReady_counters (e : Executor N ℕ) (idx : ℕ) :
    (e.markReady idx).spawned = e.spawned ∧ (e.markReady idx).completed = e.completed := by
  unfold markReady
  split
  · split
    · exact ⟨rfl, rfl⟩
    · exact ⟨rfl, rfl⟩
  · exact ⟨rfl, rfl⟩

theorem Woke.sameFutures (h : Woke e m) : e.SameFutures m := by
  induction h with
  | refl => exact ⟨fun _ => rfl, fun _ _ h => h, rfl, rfl⟩
  | sleep i slot _ ih => exact ⟨ih.future, ih.ready, ih.spawned, ih.completed⟩
  | @mark m j _ ih =>
    have hcounters := m.markReady_counters j
    constructor
    · intro idx
      rw [Executor.slots_markReady]
      exact ih.future idx
    · intro idx hfuture hready
      rw [Executor.slots_markReady]
      simp [ih.ready idx hfuture hready]
    · rw [hcounters.1, ih.spawned]
    · rw [hcounters.2, ih.completed]

theorem Executor.sameFutures_takeSlot (hfree : (e.slots idx).future = none) :
    e.SameFutures (e.takeSlot idx) := by
  refine ⟨?_, ?_, rfl, rfl⟩
  · intro j
    by_cases hj : j = idx
    · simp [takeSlot, setWoken, setSlot, hj, hfree]
    · simp [takeSlot, setWoken, setSlot, hj]
  · intro j hfuture hready
    by_cases hj : j = idx
    · simp [hj, hfree] at hfuture
    · simpa [takeSlot, setWoken, setSlot, hj] using hready

theorem Homed.same (h : Homed asyncRt w) (hexec : w.exec.SameFutures w'.exec)
    (hpolled : w'.phase.polledAt = w.phase.polledAt)
    (htask : w'.phase.currentPollTask = w.phase.currentPollTask)
    (haccepted : w'.accepted = w.accepted) (hhome : w'.home = w.home)
    (hstarted : w'.started = w.started) (hfinished : w'.finished = w.finished) :
    Homed asyncRt w' := by
  have howner : w'.owner = w.owner := by
    funext idx
    rw [World.owner, World.owner, hexec.future, hpolled]
  have hcount : w'.liveCount = w.liveCount := by
    simp only [World.liveCount, Executor.activeCount, hexec.future, htask]
  refine ⟨h.toOwned.congr howner haccepted hhome hfinished, ?_, ?_, ?_, ?_, ?_⟩
  · rw [haccepted]
    exact h.enabled
  · rw [haccepted, hstarted]
    exact h.unstarted
  · intro idx f
    rw [hpolled, hstarted, hexec.future]
    exact h.polled idx f
  · intro f hf hstart
    rw [hstarted] at hstart
    rw [World.Live, haccepted, hfinished] at hf
    rw [hhome]
    exact hexec.ready _ (by simp [h.future_of_unstarted hf hstart]) (h.ready f hf hstart)
  · rw [hexec.spawned, hexec.completed, hcount]
    exact h.counted

theorem Homed.spawnAt (h : Homed asyncRt w) {name : String} (henabled : asyncRt = true)
    (hidx : idx < N) (hfree : (w.exec.slots idx).future = none)
    (hother : w.phase.polledAt idx = none) : Homed asyncRt (w.spawnAt name idx) := by
  have howner : (w.spawnAt name idx).owner = Function.update w.owner idx (some w.accepted) := by
    funext j
    by_cases hj : j = idx
    · simp [World.owner, World.spawnAt, Executor.setSlot, hj]
    · simp [World.owner, World.spawnAt, Executor.setSlot, hj]
  have hnone : w.owner idx = none := by simp [World.owner, hfree, hother]
  refine ⟨h.toOwned.insert hidx hnone howner rfl rfl rfl, fun _ => henabled, ?_, ?_, ?_, ?_⟩
  · intro f hf
    exact h.unstarted f (by simp only [World.spawnAt] at hf; omega)
  · intro i f hf
    have hi : i ≠ idx := by
      rintro rfl
      simp [World.spawnAt, hother] at hf
    simpa [World.spawnAt, Executor.setSlot, hi] using h.polled i f hf
  · intro f hf hstart
    by_cases hnew : f = w.accepted
    · simp [World.spawnAt, Executor.setSlot, hnew]
    · have hold : w.Live f := ⟨by have := hf.1; simp only [World.spawnAt] at this; omega, hf.2⟩
      have hhome : w.home f ≠ idx := by
        rintro rfl
        simp [h.future_of_unstarted hold hstart] at hfree
      simpa [World.spawnAt, Executor.setSlot, hnew, hhome] using h.ready f hold hstart
  · have hcount : (w.spawnAt name idx).liveCount = w.liveCount + 1 := by
      have hset := Executor.activeCount_setSlot (e := w.exec) hidx ⟨some w.accepted, name, true⟩
      simp only [hfree, Option.isSome_none, Bool.toNat_false, Option.isSome_some, Bool.toNat_true,
        Nat.add_zero] at hset
      change (w.exec.setSlot idx _).activeCount + _ = _
      rw [World.liveCount, hset]
      exact Nat.add_right_comm _ _ _
    change w.exec.spawned + 1 - w.exec.completed = _
    rw [hcount, UInt64.ofNat_add, ← h.counted]
    exact add_sub_right_comm _ _ _

/-- Taking a future out of its slot to poll it leaves it the owner. -/
theorem Homed.take (h : Homed asyncRt w) {polled : ℕ} (hbefore : w.phase.currentPollTask = none)
    (hidx : idx < N) (hf : (w.exec.slots idx).future = some f) :
    Homed asyncRt { w with
      exec := w.exec.takeSlot idx
      phase := .polling idx f polled
      started := Function.update w.started f true } := by
  have hnone := Phase.polledAt_eq_none hbefore
  have hlive := ((h.owner idx f).mp (by simp [World.owner, hf])).1
  refine ⟨h.toOwned.congr ?_ rfl rfl rfl, h.enabled, ?_, ?_, ?_, ?_⟩
  · funext j
    by_cases hj : j = idx
    · simp [World.owner, Executor.takeSlot, Executor.setWoken, Executor.setSlot, hj, hf]
    · simp [World.owner, Executor.takeSlot, Executor.setWoken, Executor.setSlot, hj, Ne.symm hj, hnone]
  · intro g hg
    have hne : g ≠ f := by
      rintro rfl
      exact absurd hlive.1 (Nat.not_lt.mpr hg)
    simpa [hne] using h.unstarted g hg
  · intro j g hg
    simp only [Phase.polledAt_polling, Option.ite_none_right_eq_some, Option.some.injEq] at hg
    rcases hg with ⟨rfl, rfl⟩
    simp [Executor.takeSlot, Executor.setWoken, Executor.setSlot]
  · intro g hg hstart
    have hne : g ≠ f := by
      rintro rfl
      simp at hstart
    have hstart' : w.started g = false := by simpa [hne] using hstart
    have hslot := h.future_of_unstarted hg hstart'
    have hhome : w.home g ≠ idx := by
      intro heq
      rw [heq, hf] at hslot
      exact hne (Option.some.inj hslot).symm
    simpa [Executor.takeSlot, Executor.setWoken, Executor.setSlot, hhome] using h.ready g hg hstart'
  · have hset := Executor.activeCount_setSlot (e := w.exec) hidx
      { w.exec.slots idx with future := none, ready := false }
    simp only [hf, Option.isSome_none, Bool.toNat_false, Option.isSome_some, Bool.toNat_true] at hset
    have hcounted := h.counted
    rw [World.liveCount, hbefore] at hcounted
    exact hcounted.trans (congrArg UInt64.ofNat hset.symm)

section Polled

variable {polled : ℕ} (h : Homed asyncRt w) (hphase : w.phase = .polling idx f polled)
include h hphase

theorem Homed.polling :
    idx < N ∧ w.Live f ∧ w.home f = idx ∧ (w.exec.slots idx).future = none ∧ w.started f = true ∧
      ∀ j, j ≠ idx → w.phase.polledAt j = none := by
  have hat : w.phase.polledAt idx = some f := by simp [hphase]
  rcases h.polled idx f hat with ⟨hfree, hstarted⟩
  rcases (h.owner idx f).mp (by simp [World.owner, hfree, hat]) with ⟨hlive, hhome⟩
  refine ⟨hhome ▸ h.home_lt f hlive, hlive, hhome, hfree, hstarted, ?_⟩
  intro j hj
  simp [hphase, Ne.symm hj]

theorem Homed.putBack : Homed asyncRt (w.pollReturns idx f polled .pending) := by
  rcases h.polling hphase with ⟨hidx, hlive, hhome, hfree, hstarted, hothers⟩
  refine ⟨h.toOwned.congr ?_ rfl rfl rfl, h.enabled, h.unstarted, (by rintro _ _ ⟨⟩), ?_, ?_⟩
  · funext j
    by_cases hj : j = idx
    · simp [World.owner, World.pollReturns, Executor.putBack, Executor.setSlot, hj, hfree, hphase]
    · simp [World.owner, World.pollReturns, Executor.putBack, Executor.setSlot, hj, hothers j hj]
  · intro g hg hstart
    by_cases hj : w.home g = idx
    · have hslot := h.future_of_unstarted hg hstart
      simp [hj, hfree] at hslot
    · simpa [World.pollReturns, Executor.putBack, Executor.setSlot, hj] using h.ready g hg hstart
  · have hset := Executor.activeCount_setSlot (e := w.exec) hidx
      { w.exec.slots idx with future := some f }
    simp only [hfree, Option.isSome_none, Bool.toNat_false, Option.isSome_some, Bool.toNat_true] at hset
    have hcounted := h.counted
    rw [World.liveCount, hphase] at hcounted
    exact hcounted.trans (congrArg UInt64.ofNat hset.symm)

/-- A poll that returns `Ready` retires the future. -/
theorem Homed.complete : Homed asyncRt (w.pollReturns idx f polled .ready) := by
  rcases h.polling hphase with ⟨hidx, hlive, hhome, hfree, hstarted, hothers⟩
  have hfutures : ∀ j, ((w.exec.complete idx).slots j).future = (w.exec.slots j).future := by
    intro j
    rw [Executor.complete_eq]
    by_cases hj : j = idx
    · simp [Executor.setWoken, Executor.setSlot, hj]
    · simp [Executor.setWoken, Executor.setSlot, hj]
  have howner : w.owner idx = some f := (h.owner idx f).mpr ⟨hlive, hhome⟩
  refine ⟨h.toOwned.remove howner ?_ rfl rfl rfl, h.enabled, h.unstarted, (by rintro _ _ ⟨⟩),
    ?_, ?_⟩
  · funext j
    by_cases hj : j = idx
    · simp [World.owner, World.pollReturns, hfutures, hj, hfree]
    · simp [World.owner, World.pollReturns, hfutures, hj, hothers j hj]
  · rintro g ⟨hlt, hg⟩ hstart
    have hne : g ≠ f := by
      rintro rfl
      simp [World.pollReturns] at hg
    have hglive : w.Live g := ⟨hlt, by simpa [World.pollReturns, hne] using hg⟩
    have hj : w.home g ≠ idx := by
      intro heq
      have hslot := h.future_of_unstarted hglive hstart
      simp [heq, hfree] at hslot
    have hready := h.ready g hglive hstart
    simp only [World.pollReturns]
    rw [Executor.complete_eq]
    simpa [Executor.setWoken, Executor.setSlot, hj] using hready
  · have hcounted := h.counted
    rw [World.liveCount, hphase] at hcounted
    have hcount : (w.pollReturns idx f polled .ready).liveCount = w.exec.activeCount := by
      simp [World.liveCount, World.pollReturns, Executor.activeCount, hfutures, Phase.currentPollTask]
    have hspawned : (w.exec.complete idx).spawned = w.exec.spawned := by
      rw [Executor.complete_eq]
      rfl
    change (w.exec.complete idx).spawned - (w.exec.completed + 1) = _
    rw [hspawned, sub_add_eq_sub_sub, hcounted, hcount, Phase.currentPollTask, UInt64.ofNat_add]
    simp

end Polled

theorem Homed.move (h : Homed asyncRt w) (hmove : Move asyncRt w act w')
    (hok : SpawnsBelowPoll w act) : Homed asyncRt w' := by
  cases hmove with
  | woke _ _ hexec hphase haccepted hhome hstarted hfinished =>
    exact h.same hexec.sameFutures (by rw [hphase]) (by rw [hphase]) haccepted hhome hstarted hfinished
  | spawn name idx henabled hidx hfree hbelow =>
    refine h.spawnAt henabled hidx (Option.isNone_iff_eq_none.mp hfree) ?_
    cases hphase : w.phase with
    | idle | scanning => rfl
    | polling i f polled =>
      -- a slot before that of the polled future is free, so the search ends before it
      rcases hok i (by rw [hphase]; rfl) with ⟨j, hji, hj⟩
      have hne : i ≠ idx := by
        rintro rfl
        simp [hbelow j hji] at hj
      simp [hne]
  | scan _ phase hbefore hafter =>
    refine h.same ⟨fun _ => rfl, fun _ _ hready => hready, rfl, rfl⟩ ?_ ?_ rfl rfl rfl rfl
    · funext idx
      rw [Phase.polledAt_eq_none hbefore, Phase.polledAt_eq_none hafter]
    · rw [hbefore, hafter]
  | reset idx polled hbefore hfree =>
    refine h.same (Executor.sameFutures_takeSlot hfree) ?_ ?_ rfl rfl rfl rfl
    · funext j
      rw [Phase.polledAt_eq_none hbefore, Phase.polledAt_scanning]
    · rw [hbefore]
      rfl
  | take idx f polled hbefore hidx hfuture => exact h.take hbefore hidx hfuture
  | pollReturns idx f polled result hphase =>
    cases result with
    | ready => exact h.complete hphase
    | pending => exact h.putBack hphase

/-- With every slot before the polled one taken, the new future gets the slot of the polled one. -/
theorem Homed.not_noTaskLost (h : Homed asyncRt w) (hstep : step asyncRt cfg w act = some w')
    (hbad : ¬ SpawnsBelowPoll w act) : ¬ NoTaskLost w' := by
  cases act with
  | spawn name =>
    cases hstep
    simp only [SpawnsBelowPoll, not_forall, not_exists, not_and] at hbad
    rcases hbad with ⟨i, hi, hfull⟩
    cases hphase : w.phase with
    | idle | scanning => simp [hphase, Phase.currentPollTask] at hi
    | polling idx f polled =>
      have hi : idx = i := by
        rw [hphase] at hi
        exact Option.some.inj hi
      subst hi
      rcases h.polling hphase with ⟨hidx, hlive, hhome, hfree, -⟩
      have hidxFree : w.exec.isFree idx = true := by simp [Executor.isFree, hfree]
      have henabled := h.enabled (Nat.zero_lt_of_lt hlive.1)
      rcases World.spawn_of_free name henabled ⟨idx, hidx, hidxFree⟩ with
        ⟨j, -, hj, hbelow, heq⟩
      -- every slot before that of the polled future is taken, so the search ends there
      have hjidx : j = idx := by
        by_contra hne
        rcases Nat.lt_or_gt_of_ne hne with hlt | hgt
        · exact hfull j hlt hj
        · simp [hbelow idx hgt] at hidxFree
      subst hjidx
      rw [heq]
      intro hno
      have hne : f ≠ w.accepted := Nat.ne_of_lt hlive.1
      apply hne
      apply hno.apart
      · exact ⟨Nat.lt_succ_of_lt hlive.1, hlive.2⟩
      · exact ⟨Nat.lt_succ_self _, h.fresh _ le_rfl⟩
      · simp [World.spawnAt, hne, hhome]
  | _ => exact absurd trivial hbad

/-- In a run of the executor from its start no task is lost exactly if every spawn during a poll
finds a free slot before the one of the polled future. -/
theorem no_async_task_lost_iff (M N : ℕ) (asyncRt : Bool) (cfg : Config) (s : State)
    (acts : List Act) :
    Always (step asyncRt cfg) NoTaskLost (World.new M N s) acts ↔
      Along (step asyncRt cfg) SpawnsBelowPoll (World.new M N s) acts := by
  apply always_iff_along (P := Homed asyncRt) (fun w h => h.noTaskLost)
  · intro w act w' h hok hstep
    exact h.move (step_move hstep) hok
  · intro w act w' h hbad hstep
    exact h.not_noTaskLost hstep hbad
  · have hnone : ∀ f, ¬ (World.new M N s).Live f := fun f hf => Nat.not_lt_zero f hf.1
    have haccepted : ¬ 0 < (World.new M N s).accepted := Nat.lt_irrefl 0
    refine ⟨⟨fun _ _ => rfl, fun f hf => absurd hf (hnone f), ?_⟩,
      fun hpos => absurd hpos haccepted, fun _ _ => rfl, (by rintro _ _ ⟨⟩), ?_, ?_⟩
    · intro idx f
      constructor
      · rintro ⟨⟩
      · rintro ⟨hf, -⟩
        exact absurd hf (hnone f)
    · intro f hf
      exact absurd hf (hnone f)
    · simp [World.new, World.liveCount, Executor.new, Executor.activeCount, AsyncSlot.empty,
        Phase.currentPollTask]

/-- The future that is polled spawns a second one, which is put into its slot and dropped when the
first one is put back. -/
theorem spawn_during_poll_is_dropped :
    ∃ s w, initSystemTasks .small (.ofPriority 0) (.ofPriority 1) (init .small .blank) = some s ∧
      run (step true .small) (World.new 1 2 s) [.spawn "heartbeat", .pollOnce, .advance,
        .spawn "demo-event", .pollReturns .pending] = some w ∧
      w.Live 1 ∧ w.home 1 = 0 ∧ (w.exec.slots 0).future = some 0 ∧ (w.exec.slots 1).future = none ∧
      ¬ NoTaskLost w := by
  have htest : ((initSystemTasks .small (.ofPriority 0) (.ofPriority 1) (init .small .blank)).bind
      fun s => run (step true .small) (World.new 1 2 s) [.spawn "heartbeat", .pollOnce, .advance,
        .spawn "demo-event", .pollReturns .pending]).any (fun w => decide
          (1 < w.accepted ∧ w.finished 1 = false ∧ w.home 1 = 0 ∧
            (w.exec.slots 0).future = some 0 ∧ (w.exec.slots 1).future = none ∧
            w.phase = .scanning 1 1)) = true := by
    decide +kernel
  rcases (Option.any_eq_true _ _).mp htest with ⟨w, hw, hfacts⟩
  rcases Option.bind_eq_some_iff.mp hw with ⟨s, hs, hrun⟩
  rcases of_decide_eq_true hfacts with ⟨hlt, hfinished, hhome, hfirst, hsecond, hphase⟩
  refine ⟨s, w, hs, hrun, ⟨hlt, hfinished⟩, hhome, hfirst, hsecond, ?_⟩
  intro hno
  have hkept := (hno.kept 1 ⟨hlt, hfinished⟩).2
  simp [hhome, hfirst, hphase] at hkept

end OpenIon.Sched.Async
