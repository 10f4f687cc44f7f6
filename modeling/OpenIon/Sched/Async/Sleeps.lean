import OpenIon.Sched.Async.Machine
import OpenIon.Sched.Async.SleepTable
import OpenIon.Sched.Blocks

/-! # Sleeps of async tasks

The `SleepTicks` futures of the async tasks, in the build with the async runtime. A task
creates, polls and drops any number of them, also several at once. The executor keeps one
deadline for each task, which the first poll of a later future overwrites; so a task is woken
in time as long as the futures it waits for together have the same deadline.
-/
namespace OpenIon.Sched.Async.Sleeps
open Lib

/-- A `SleepTicks`. The code does not have the other fields: the slot of the task that polled it
last, whether that poll got `Pending`, and whether its deadline has been reached. -/
structure Sleep where
  future : SleepTicks
  owner : Option ℕ
  pending : Bool
  reached : Bool

def Sleep.create (now ticks : UInt32) : Sleep := ⟨⟨now + ticks, false⟩, none, false, ticks == 0⟩

/-- The future is waited for: it has been polled by the task, without success, and its deadline
lies ahead. -/
def Sleep.Awaited (f : Sleep) (idx : ℕ) : Prop :=
  f.owner = some idx ∧ f.pending = true ∧ f.reached = false

instance Sleep.instDecidableAwaited (f : Sleep) (idx : ℕ) : Decidable (f.Awaited idx) :=
  inferInstanceAs (Decidable (f.owner = some idx ∧ f.pending = true ∧ f.reached = false))

structure World (M N K : ℕ) where
  base : Async.World M N
  sleeps : Fin K → Option Sleep

inductive Act (K : ℕ) where
  | base (act : Async.Act)
  | tick
  | create (j : Fin K) (ticks : UInt32)
  | poll (j : Fin K)
  | drop (j : Fin K)

namespace World

variable {M N K : ℕ}

def new (M N K : ℕ) (s : State) : World M N K := ⟨.new M N s, fun _ => none⟩

def now (w : World M N K) : UInt32 := w.base.sched.ticks

def polled (w : World M N K) : Option ℕ := w.base.phase.currentPollTask

def tick (w : World M N K) : World M N K :=
  let s := timerTick w.base.sched
  { base := { w.base with sched := s, exec := w.base.exec.tickUpdate true s.ticks }
    sleeps j := (w.sleeps j).map fun f =>
      { f with reached := f.reached || f.future.wakeTick == s.ticks } }

def poll (w : World M N K) (j : Fin K) (idx : ℕ) (f : Sleep) : World M N K :=
  let (ready, future, e) := f.future.poll w.now (some idx) w.base.exec
  { base := { w.base with exec := e }
    sleeps := Function.update w.sleeps j (some ⟨future, some idx, !ready, f.reached⟩) }

/-- When the future of a task has returned `Ready`, the futures it holds are dropped with it. -/
def follow (w : World M N K) (b : Async.World M N) : Async.Act → World M N K
  | .pollReturns .ready => ⟨b, fun j => (w.sleeps j).filter fun f => decide (f.owner ≠ w.polled)⟩
  | _ => { w with base := b }

end World

/-- The clock moves, and the sleeps are polled, by steps of their own. -/
def admits : Async.Act → Bool
  | .pollSleep _ | .tickUpdate | .sched .tick => false
  | _ => true

/-- A tick falls between the polls, and delays are below `2 ^ 31`. -/
def step {M N K : ℕ} (cfg : Config) (w : World M N K) : Act K → Option (World M N K)
  | .base act =>
    if admits act then (Async.step true cfg w.base act).map fun b => w.follow b act else none
  | .tick => if w.polled = none then some w.tick else none
  | .create j ticks =>
    if (w.sleeps j).isNone ∧ ticks.toNat < 2 ^ 31 then
      some { w with sleeps := Function.update w.sleeps j (some (.create w.now ticks)) }
    else none
  | .poll j =>
    match w.polled, w.sleeps j with
    | some idx, some f => some (w.poll j idx f)
    | _, _ => none
  | .drop j => some { w with sleeps := Function.update w.sleeps j none }

variable {M N K : ℕ} {cfg : Config} {w w' : World M N K} {idx : ℕ} {j : Fin K} {f : Sleep}

/-- Every suspended task that waits for a future is ready after the tick at which the deadline of
that future is reached. -/
def WakesInTime (cfg : Config) (w : World M N K) : Prop :=
  ∀ w', step cfg w .tick = some w' → ∀ idx j f, w.sleeps j = some f → f.Awaited idx →
    f.future.wakeTick = w'.now → (w'.base.exec.slots idx).future.isSome = true →
      (w'.base.exec.slots idx).ready = true

/-- A future is polled by one task only, and not registered while the task waits for another one
with a different deadline. -/
def Careful (w : World M N K) : Act K → Prop
  | .poll j => ∀ idx ∈ w.polled, ∀ f ∈ w.sleeps j, (f.owner = none ∨ f.owner = some idx) ∧
      (f.future.registered = false → isDue w.now f.future.wakeTick = false →
        ∀ k, ∀ g ∈ w.sleeps k, g.Awaited idx → g.future.wakeTick = f.future.wakeTick)
  | _ => True

instance instDecidableCareful (w : World M N K) : (a : Act K) → Decidable (Careful w a)
  | .poll j => inferInstanceAs (Decidable (∀ idx ∈ w.polled, ∀ f ∈ w.sleeps j,
      (f.owner = none ∨ f.owner = some idx) ∧
        (f.future.registered = false → isDue w.now f.future.wakeTick = false →
          ∀ k, ∀ g ∈ w.sleeps k, g.Awaited idx → g.future.wakeTick = f.future.wakeTick)))
  | .base _ | .tick | .create _ _ | .drop _ => isTrue trivial

/-! ### Time -/

/-- The deadline lies less than `2 ^ 31` ticks ahead. -/
def Ahead (now wakeTick : UInt32) : Prop :=
  0 < (wakeTick - now).toNat ∧ (wakeTick - now).toNat < 2 ^ 31

theorem Ahead.not_due {now wakeTick : UInt32} (h : Ahead now wakeTick) :
    isDue now wakeTick = false := by
  have hw := wakeTick.toNat_lt
  have hn := now.toNat_lt
  obtain ⟨hpos, hlt⟩ := h
  rw [UInt32.toNat_sub] at hpos hlt
  have hlit : (0x7FFFFFFF : UInt32).toNat = 0x7FFFFFFF := rfl
  rw [isDue, decide_eq_false_iff_not, UInt32.lt_iff_toNat_lt, UInt32.toNat_sub, hlit]
  omega

theorem Ahead.tick {now wakeTick : UInt32} (h : Ahead now wakeTick) (hne : wakeTick ≠ now + 1) :
    Ahead (now + 1) wakeTick := by
  have hw := wakeTick.toNat_lt
  have hn := now.toNat_lt
  have hne : wakeTick.toNat ≠ (now + 1).toNat := fun heq => hne (UInt32.toNat_inj.mp heq)
  obtain ⟨hpos, hlt⟩ := h
  have hone : (1 : UInt32).toNat = 1 := rfl
  rw [UInt32.toNat_sub] at hpos hlt
  rw [UInt32.toNat_add, hone] at hne
  rw [Ahead, UInt32.toNat_sub, UInt32.toNat_add, hone]
  omega

theorem ahead_create {now ticks : UInt32} (hne : ticks ≠ 0) (hlt : ticks.toNat < 2 ^ 31) :
    Ahead now (now + ticks) := by
  have hpos : 0 < ticks.toNat := by
    rw [Nat.pos_iff_ne_zero]
    exact fun h => hne (UInt32.toNat_inj.mp h)
  have heq : now + ticks - now = ticks := by
    rw [UInt32.add_comm, UInt32.add_sub_cancel]
  rw [Ahead, heq]
  exact ⟨hpos, hlt⟩

/-! ### The invariant -/

/-- The deadlines that tasks wait for are the ones in the table. -/
structure Timed (w : World M N K) : Prop where
  table : w.base.exec.SleepsDistinct
  polled : ∀ idx ∈ w.polled, idx < N
  ahead : ∀ j f, w.sleeps j = some f → f.reached = false → Ahead w.now f.future.wakeTick
  registered : ∀ j f, w.sleeps j = some f → f.reached = false →
    (f.future.registered = true ↔ f.pending = true)
  held : ∀ j f, w.sleeps j = some f → f.reached = false → f.pending = true →
    ∃ idx < N, f.owner = some idx ∧ w.base.exec.HasSleep idx f.future.wakeTick

theorem Timed.new (M N K : ℕ) (s : State) : Timed (World.new M N K s) where
  table := ⟨fun _ _ h => (by cases h), fun _ _ _ _ h => (by cases h)⟩
  polled := by rintro _ ⟨⟩
  ahead := by rintro _ _ ⟨⟩
  registered := by rintro _ _ ⟨⟩
  held := by rintro _ _ ⟨⟩

theorem Timed.wakesInTime (h : Timed w) : WakesInTime cfg w := by
  intro w' hstep idx j f hf hawaited hreach hfuture
  simp only [step, Option.ite_none_right_eq_some, Option.some.injEq] at hstep
  obtain ⟨-, rfl⟩ := hstep
  obtain ⟨howner, hpending, hahead⟩ := hawaited
  obtain ⟨i, hi, hown, hsleep⟩ := h.held j f hf hahead hpending
  obtain rfl : i = idx := Option.some.inj (hown.symm.trans howner)
  have hdue : isDue (timerTick w.base.sched).ticks f.future.wakeTick = true := by
    rw [hreach]
    simp [isDue, World.now, World.tick]
  have hwoke : Woke w.base.exec (w.tick).base.exec := .tickUpdate true _
  rw [(slot_of_woke i hwoke).1] at hfuture
  exact hsleep.ready_tickUpdate hi hdue hfuture

/-- What holds of the futures that are left holds in a world in which nothing else changed. -/
theorem Timed.of_sleeps (h : Timed w) {b : Async.World M N} {sleeps : Fin K → Option Sleep}
    (hticks : b.sched.ticks = w.now) (htable : b.exec.SleepsDistinct)
    (hpolled : ∀ idx ∈ b.phase.currentPollTask, idx < N)
    (hold : ∀ j f, sleeps j = some f → w.sleeps j = some f ∧
      ∀ idx, f.owner = some idx → f.reached = false → f.pending = true →
        w.base.exec.HasSleep idx f.future.wakeTick → b.exec.HasSleep idx f.future.wakeTick) :
    Timed (⟨b, sleeps⟩ : World M N K) := by
  refine ⟨htable, hpolled, ?_, ?_, ?_⟩
  · intro j f hf hahead
    have hahead := h.ahead j f (hold j f hf).1 hahead
    rwa [← hticks] at hahead
  · intro j f hf
    exact h.registered j f (hold j f hf).1
  · intro j f hf hahead hpending
    obtain ⟨idx, hidx, howner, hsleep⟩ := h.held j f (hold j f hf).1 hahead hpending
    exact ⟨idx, hidx, howner, (hold j f hf).2 idx howner hahead hpending hsleep⟩

/-! ### The steps of the rest of the system -/

@[simp] theorem sleepSlots_wakeTask (e : Executor N ℕ) (idx : ℕ) :
    (e.wakeTask idx).sleepSlots = e.sleepSlots := by
  unfold Executor.wakeTask
  split_ifs
  · exact Executor.sleepSlots_markReady e idx
  · rfl

theorem ticks_wakeOne (cfg : Config) (s : State) (q : WaitQueueInner M) :
    (wakeOne cfg s q).2.1.ticks = s.ticks := by
  unfold wakeOne
  split
  · rfl
  · exact ((SameBlocks.refl s).wakeBlockedTask _).ticks

theorem signal_kept (s : State) (e : Executor N ℕ) (ev : EventInner M) :
    (ev.signal cfg s e).2.1.ticks = s.ticks ∧
      (ev.signal cfg s e).2.2.1.sleepSlots = e.sleepSlots := by
  have hticks := ticks_wakeOne cfg s ev.waiters
  unfold EventInner.signal
  generalize wakeOne cfg s ev.waiters = r at hticks
  obtain ⟨woke, m, q⟩ := r
  cases woke with
  | true => exact ⟨hticks, rfl⟩
  | false =>
    dsimp only
    split
    · exact ⟨hticks, sleepSlots_wakeTask e _⟩
    · exact ⟨hticks, rfl⟩

theorem ticks_wait (s : State) (ev : EventInner M) : (ev.wait s).2.1.ticks = s.ticks := by
  have hblock : (blockCurrentTaskIrqDisabled s).2.ticks = s.ticks := by
    unfold blockCurrentTaskIrqDisabled
    split
    · rfl
    · split_ifs
      · rfl
      · rfl
  unfold EventInner.wait
  generalize blockCurrentTaskIrqDisabled s = r at hblock
  obtain ⟨blocked, m⟩ := r
  split_ifs
  · rfl
  · rfl
  · split
    · rfl
    · cases blocked with
      | true => exact hblock
      | false => exact hblock

theorem spawn_kept (b : Async.World M N) (name : String) :
    (b.spawn true name).sched = b.sched ∧
      (b.spawn true name).exec.sleepSlots = b.exec.sleepSlots := by
  by_cases hfull : ∀ i < N, b.exec.isFree i = false
  · rw [Async.World.spawn_of_full (.inr hfull)]
    exact ⟨rfl, rfl⟩
  · simp only [not_forall, Bool.not_eq_false, exists_prop] at hfull
    obtain ⟨i, -, -, -, heq⟩ := Async.World.spawn_of_free name rfl hfull
    rw [heq]
    exact ⟨rfl, rfl⟩

/-- Apart from the steps of the sleeps and the end of a task, nothing changes the clock or the
deadlines. -/
theorem kept_of_step {b b' : Async.World M N} {act : Async.Act} (hadmits : admits act = true)
    (hready : act ≠ .pollReturns .ready) (h : Async.step true cfg b act = some b') :
    b'.sched.ticks = b.sched.ticks ∧ b'.exec.sleepSlots = b.exec.sleepSlots := by
  cases act with
  | spawn name =>
    cases h
    exact ⟨congrArg State.ticks (spawn_kept b name).1, (spawn_kept b name).2⟩
  | pollOnce =>
    simp only [Async.step, Option.ite_none_right_eq_some, Option.some.injEq] at h
    obtain ⟨-, rfl⟩ := h
    exact ⟨rfl, rfl⟩
  | advance =>
    obtain ⟨idx, polled, -, rfl⟩ := step_advance h
    rcases b.advance_cases idx polled with ⟨_, _, heq⟩ | ⟨_, heq⟩ | ⟨_, _, _, heq⟩
    all_goals
      rw [heq]
      exact ⟨rfl, rfl⟩
  | pollReturns result =>
    obtain ⟨idx, future, polled, -, rfl⟩ := step_pollReturns h
    cases result with
    | ready => exact absurd rfl hready
    | pending => exact ⟨rfl, rfl⟩
  | wakeTask idx =>
    cases h
    exact ⟨rfl, sleepSlots_wakeTask _ idx⟩
  | signal i =>
    cases h
    exact signal_kept b.sched b.exec (b.events i)
  | eventWait i =>
    cases h
    exact ⟨ticks_wait b.sched (b.events i), rfl⟩
  | clear i | eventLeave i task | pollEvent i waiter | dropEvent i waiter =>
    cases h
    exact ⟨rfl, rfl⟩
  | sched op =>
    obtain ⟨s, hs, rfl⟩ := Option.map_eq_some_iff.mp h
    refine ⟨ticks_perform ?_ hs, rfl⟩
    rintro rfl
    cases hadmits
  | tickUpdate | pollSleep f => cases hadmits

theorem polled_lt_of_step {b b' : Async.World M N} {act : Async.Act}
    (hlt : ∀ idx ∈ b.phase.currentPollTask, idx < N) (h : Async.step true cfg b act = some b') :
    ∀ idx ∈ b'.phase.currentPollTask, idx < N := by
  cases step_move h with
  | woke _ _ _ hphase => rwa [hphase]
  | spawn => exact hlt
  | scan _ phase _ hafter => simp [hafter]
  | reset => rintro _ ⟨⟩
  | take idx _ _ _ hidx =>
    rintro _ ⟨⟩
    exact hidx
  | pollReturns idx f polled result hbefore =>
    cases result with
    | ready => rintro _ ⟨⟩
    | pending => rintro _ ⟨⟩

theorem Timed.pollReady (h : Timed w) {f polled : ℕ} (hphase : w.base.phase = .polling idx f polled) :
    Timed (w.follow (w.base.pollReturns idx f polled .ready) (.pollReturns .ready)) := by
  have hpolled : w.polled = some idx := by rw [World.polled, hphase]; rfl
  apply h.of_sleeps
  · rfl
  · exact h.table.clearSleep.congr (w.base.exec.sleepSlots_complete idx)
  · rintro _ ⟨⟩
  · intro j f hf
    obtain ⟨hf, howner⟩ := Option.filter_eq_some_iff.mp hf
    refine ⟨hf, ?_⟩
    intro i hi _ _ hsleep
    have hne : i ≠ idx := by
      rintro rfl
      rw [hpolled, hi] at howner
      simp at howner
    exact (hsleep.clearSleep_of_ne hne).congr (w.base.exec.sleepSlots_complete idx)

theorem Timed.base (h : Timed w) {b : Async.World M N} {act : Async.Act}
    (hadmits : admits act = true) (hstep : Async.step true cfg w.base act = some b) :
    Timed (w.follow b act) := by
  by_cases hready : act = .pollReturns .ready
  · subst hready
    obtain ⟨idx, f, polled, hphase, rfl⟩ := step_pollReturns hstep
    exact h.pollReady hphase
  · obtain ⟨hticks, hsleeps⟩ := kept_of_step hadmits hready hstep
    have hfollow : w.follow b act = ⟨b, w.sleeps⟩ := by
      unfold World.follow
      split
      · exact absurd rfl hready
      · rfl
    rw [hfollow]
    refine h.of_sleeps hticks (h.table.congr hsleeps) (polled_lt_of_step h.polled hstep) ?_
    intro j f hf
    exact ⟨hf, fun idx _ _ _ hsleep => hsleep.congr hsleeps⟩

/-! ### The steps of the sleeps -/

theorem Timed.tick (h : Timed w) : Timed w.tick := by
  have hnow : w.tick.now = w.now + 1 := rfl
  -- a future that is not reached after the tick was not reached before
  have hsleeps : ∀ j f, w.tick.sleeps j = some f → f.reached = false →
      w.sleeps j = some f ∧ Ahead (w.now + 1) f.future.wakeTick := by
    intro j f hf hahead
    obtain ⟨g, hg, rfl⟩ := Option.map_eq_some_iff.mp hf
    simp only [Bool.or_eq_false_iff, beq_eq_false_iff_ne] at hahead
    have heq : { g with reached := g.reached || g.future.wakeTick == (timerTick w.base.sched).ticks }
        = g := by
      rw [hahead.1, Bool.false_or, beq_eq_false_iff_ne.mpr hahead.2]
      cases g
      simpa using hahead.1.symm
    rw [heq]
    exact ⟨hg, (h.ahead j g hg hahead.1).tick hahead.2⟩
  refine ⟨h.table.tickUpdate, ?_, ?_, ?_, ?_⟩
  · intro idx hidx
    exact h.polled idx hidx
  · intro j f hf hahead
    rw [hnow]
    exact (hsleeps j f hf hahead).2
  · intro j f hf hahead
    exact h.registered j f (hsleeps j f hf hahead).1 hahead
  · intro j f hf hahead hpending
    obtain ⟨hold, hlater⟩ := hsleeps j f hf hahead
    obtain ⟨idx, hidx, howner, hsleep⟩ := h.held j f hold hahead hpending
    exact ⟨idx, hidx, howner, hsleep.tickUpdate hlater.not_due⟩

theorem Timed.update (h : Timed w) {e : Executor N ℕ} (new : Option Sleep)
    (htable : e.SleepsDistinct)
    (hnew : ∀ f, new = some f → f.reached = false → Ahead w.now f.future.wakeTick ∧
      (f.future.registered = true ↔ f.pending = true) ∧ (f.pending = true →
        ∃ idx < N, f.owner = some idx ∧ e.HasSleep idx f.future.wakeTick))
    (hold : ∀ k f idx, k ≠ j → w.sleeps k = some f → f.Awaited idx →
      w.base.exec.HasSleep idx f.future.wakeTick → e.HasSleep idx f.future.wakeTick) :
    Timed (⟨{ w.base with exec := e }, Function.update w.sleeps j new⟩ : World M N K) := by
  have hcases : ∀ k f, Function.update w.sleeps j new k = some f →
      (k = j ∧ new = some f) ∨ k ≠ j ∧ w.sleeps k = some f := by
    intro k f hf
    by_cases hk : k = j
    · subst hk
      rw [Function.update_self] at hf
      exact .inl ⟨rfl, hf⟩
    · rw [Function.update_of_ne hk] at hf
      exact .inr ⟨hk, hf⟩
  refine ⟨htable, h.polled, ?_, ?_, ?_⟩
  · intro k f hf hahead
    rcases hcases k f hf with ⟨-, hf⟩ | ⟨-, hf⟩
    · exact (hnew f hf hahead).1
    · exact h.ahead k f hf hahead
  · intro k f hf hahead
    rcases hcases k f hf with ⟨-, hf⟩ | ⟨-, hf⟩
    · exact (hnew f hf hahead).2.1
    · exact h.registered k f hf hahead
  · intro k f hf hahead hpending
    rcases hcases k f hf with ⟨-, hf⟩ | ⟨hk, hf⟩
    · exact (hnew f hf hahead).2.2 hpending
    · obtain ⟨idx, hidx, howner, hsleep⟩ := h.held k f hf hahead hpending
      exact ⟨idx, hidx, howner, hold k f idx hk hf ⟨howner, hpending, hahead⟩ hsleep⟩

theorem Timed.create (h : Timed w) {ticks : UInt32} (hlt : ticks.toNat < 2 ^ 31) :
    Timed { w with sleeps := Function.update w.sleeps j (some (.create w.now ticks)) } := by
  apply h.update (e := w.base.exec) (some (.create w.now ticks)) h.table
  · rintro f ⟨⟩ hahead
    have hne : ticks ≠ 0 := beq_eq_false_iff_ne.mp hahead
    refine ⟨ahead_create hne hlt, ⟨(by rintro ⟨⟩), (by rintro ⟨⟩)⟩, (by rintro ⟨⟩)⟩
  · intro _ _ _ _ _ _ hsleep
    exact hsleep

theorem Timed.drop (h : Timed w) :
    Timed { w with sleeps := Function.update w.sleeps j none } := by
  apply h.update (e := w.base.exec) none h.table
  · rintro f ⟨⟩
  · intro _ _ _ _ _ _ hsleep
    exact hsleep

theorem Timed.poll (h : Timed w) (hok : Careful w (.poll j)) (hpolled : w.polled = some idx)
    (hf : w.sleeps j = some f) : Timed (w.poll j idx f) := by
  obtain ⟨howner, hothers⟩ := hok idx hpolled f hf
  by_cases hdue : isDue w.now f.future.wakeTick = true
  · -- a deadline that is due has been reached before
    have heq : w.poll j idx f = ⟨{ w.base with exec := w.base.exec },
        Function.update w.sleeps j (some ⟨f.future, some idx, false, f.reached⟩)⟩ := by
      simp [World.poll, SleepTicks.poll, hdue]
    rw [heq]
    apply h.update _ h.table
    · rintro _ ⟨⟩ hahead
      rw [(h.ahead j f hf hahead).not_due] at hdue
      cases hdue
    · intro _ _ _ _ _ _ hsleep
      exact hsleep
  · by_cases hreg : f.future.registered = true
    · have heq : w.poll j idx f = ⟨{ w.base with exec := w.base.exec },
          Function.update w.sleeps j (some ⟨f.future, some idx, true, f.reached⟩)⟩ := by
        simp [World.poll, SleepTicks.poll, hdue, hreg]
      rw [heq]
      apply h.update _ h.table
      · rintro _ ⟨⟩ hahead
        refine ⟨h.ahead j f hf hahead, by simp [hreg], ?_⟩
        intro _
        have hpending := (h.registered j f hf hahead).mp hreg
        obtain ⟨i, hi, hown, hsleep⟩ := h.held j f hf hahead hpending
        rcases howner with hnone | hsome
        · rw [hnone] at hown
          cases hown
        · exact ⟨i, hi, hsome.symm.trans hown, hsleep⟩
      · intro _ _ _ _ _ _ hsleep
        exact hsleep
    · have heq : w.poll j idx f = ⟨{ w.base with
          exec := w.base.exec.registerSleep idx f.future.wakeTick },
          Function.update w.sleeps j (some ⟨⟨f.future.wakeTick, true⟩, some idx, true, f.reached⟩)⟩ := by
        simp [World.poll, SleepTicks.poll, hdue, hreg]
      have hidx := h.polled idx hpolled
      obtain ⟨htable, hhas⟩ := h.table.registerSleep hidx f.future.wakeTick
      rw [heq]
      apply h.update _ htable
      · rintro _ ⟨⟩ hahead
        exact ⟨h.ahead j f hf hahead, by simp, fun _ => ⟨idx, hidx, rfl, hhas⟩⟩
      · intro k g i hk hg hawaited hsleep
        by_cases hi : i = idx
        · subst hi
          rw [hothers (by simpa using hreg) (by simpa using hdue) k g hg hawaited]
          exact hhas
        · exact hsleep.registerSleep_of_ne hi

theorem Timed.step (h : Timed w) {a : Act K} (hok : Careful w a) (hstep : step cfg w a = some w') :
    Timed w' := by
  cases a with
  | base act =>
    simp only [Sleeps.step, Option.ite_none_right_eq_some] at hstep
    obtain ⟨b, hb, rfl⟩ := Option.map_eq_some_iff.mp hstep.2
    exact h.base hstep.1 hb
  | tick =>
    simp only [Sleeps.step, Option.ite_none_right_eq_some, Option.some.injEq] at hstep
    obtain ⟨-, rfl⟩ := hstep
    exact h.tick
  | create j ticks =>
    simp only [Sleeps.step, Option.ite_none_right_eq_some, Option.some.injEq] at hstep
    obtain ⟨⟨-, hlt⟩, rfl⟩ := hstep
    exact h.create hlt
  | poll j =>
    simp only [Sleeps.step] at hstep
    split at hstep
    next idx f hpolled hf =>
      cases hstep
      exact h.poll hok hpolled hf
    next => cases hstep
  | drop j =>
    cases hstep
    exact h.drop

/-- In a run in which no task polls a new sleep while it waits for one with another deadline, every
suspended task is ready at the tick at which a deadline it waits for is reached. -/
theorem sleeps_wake_in_time (M N K : ℕ) (cfg : Config) (s : State) (acts : List (Act K))
    (hok : Along (step cfg) Careful (World.new M N K s) acts) :
    Always (step cfg) (WakesInTime cfg) (World.new M N K s) acts := by
  have htimed := hok.always (P := Timed) (fun w a w' h hok hstep => h.step hok hstep)
    (Timed.new M N K s)
  exact htimed.imp fun w h => h.wakesInTime

/-- A task polls two sleeps in one poll and is suspended. -/
def bothSleep (j k : Fin K) (ticks ticks' : UInt32) : List (Act K) :=
  [.base (.spawn "a"), .base .pollOnce, .base .advance, .create j ticks, .create k ticks', .poll j,
    .poll k, .base (.pollReturns .pending)]

/-- The second sleep overwrites the deadline of the first, at which the task is not woken. -/
theorem first_deadline_is_missed :
    ∃ w : World 1 2 2, run (step .small) (World.new 1 2 2 (init .small .blank))
      (bothSleep 0 1 2 5 ++ [.tick]) = some w ∧ ¬ WakesInTime .small w := by
  have htest : (run (step .small) (World.new 1 2 2 (init .small .blank))
      (bothSleep 0 1 2 5 ++ [.tick])).any (fun w => decide (w.polled = none ∧
        (∃ f ∈ w.sleeps 0, f.Awaited 0 ∧ f.future.wakeTick = w.tick.now) ∧
        (w.tick.base.exec.slots 0).future.isSome = true ∧
        (w.tick.base.exec.slots 0).ready = false)) = true := by
    decide +kernel
  obtain ⟨w, hrun, hfacts⟩ := (Option.any_eq_true _ _).mp htest
  obtain ⟨hpolled, ⟨f, hf, hawaited, hreach⟩, hfuture, hready⟩ := of_decide_eq_true hfacts
  refine ⟨w, hrun, ?_⟩
  intro hwakes
  have htick : step .small w .tick = some w.tick := by simp [step, hpolled]
  have hmarked := hwakes w.tick htick 0 0 f hf hawaited hreach hfuture
  simp [hready] at hmarked

/-- Two sleeps with one deadline; when it is over, the task drops one and sleeps once more. -/
def sleepsAgain (j k : Fin K) : List (Act K) :=
  [.tick, .tick, .drop k, .base .advance, .base .advance, .base .pollOnce, .base .advance,
    .create k 7, .poll j, .poll k, .base (.pollReturns .pending), .tick]

theorem common_deadline_is_met :
    Along (step .small) Careful (World.new 1 2 2 (init .small .blank))
        (bothSleep 0 1 2 2 ++ sleepsAgain 0 1) ∧
      Always (step .small) (WakesInTime .small) (World.new 1 2 2 (init .small .blank))
        (bothSleep 0 1 2 2 ++ sleepsAgain 0 1) := by
  have hok : Along (step .small) Careful (World.new 1 2 2 (init .small .blank))
      (bothSleep 0 1 2 2 ++ sleepsAgain 0 1) := by
    decide +kernel
  exact ⟨hok, sleeps_wake_in_time 1 2 2 .small (init .small .blank) _ hok⟩

end OpenIon.Sched.Async.Sleeps
