import OpenIon.Sched.Async.EventWaits

/-! # Forgotten waiters of an event

An event can register one async task only. A task that polls its wait while another
task is registered is not registered itself and may never be woken. Apart from that,
and from the wakes that are lost during a poll, every suspended task is registered or
marked ready. A wait that is dropped compares slots: the registration that it removes
is that of its own task as long as waits are not handed on.
-/
namespace OpenIon.Sched.Async.EventWaits
open Lib

variable {M N K : ℕ} {asyncRt : Bool} {cfg : Config} {w w' : World M N K} {idx : ℕ}
  {b : Async.World M N} {act : Async.Act}

theorem ready_wakeTask {e : Executor N ℕ} (hidx : idx < N)
    (hfull : (e.slots idx).future.isSome = true) : ((e.wakeTask idx).slots idx).ready = true := by
  rw [Executor.wakeTask, if_pos hidx, Executor.slots_markReady]
  simp [hidx, hfull]

/-- What `signal` does: a blocked task takes it, the registered task is woken, or nobody is. -/
theorem signal_cases (cfg : Config) (s : State) (e : Executor N ℕ) (ev : EventInner M) :
    let r := ev.signal cfg s e
    (r.2.2.1 = e ∧ r.2.2.2.asyncWaiter = ev.asyncWaiter ∧ r.2.2.2.signaled = ev.signaled) ∨
      r.2.2.2.asyncWaiter = none ∧ r.2.2.2.signaled = true ∧
        ((∃ task, ev.asyncWaiter = some task ∧ r.2.2.1 = e.wakeTask task) ∨
          ev.asyncWaiter = none ∧ r.2.2.1 = e) := by
  unfold EventInner.signal
  split
  · exact .inl ⟨rfl, rfl, rfl⟩
  · split
    next task htask => exact .inr ⟨rfl, rfl, .inl ⟨task, htask, rfl⟩⟩
    next hnone => exact .inr ⟨hnone, rfl, .inr ⟨hnone, rfl⟩⟩

/-- Every suspended task is registered or ready. -/
structure Watched (w : World M N K) : Prop where
  flag : w.event.signaled = true → w.event.asyncWaiter = none
  asleep : ∀ idx < N, w.polled ≠ some idx → Suspended w idx →
    w.event.asyncWaiter = some idx ∨ (w.base.exec.slots idx).ready = true
  polled : ∀ idx ∈ w.polled, Awaits w idx →
    w.event.asyncWaiter = some idx ∧ w.event.signaled = false

theorem Watched.noForgottenWaiter (h : Watched w) : NoForgottenWaiter w := by
  rintro hpolled hset ⟨idx, hidx, hsus⟩
  refine ⟨idx, hidx, hsus, ?_⟩
  rcases h.asleep idx hidx (by simp [hpolled]) hsus with hreg | hready
  · simp [h.flag hset] at hreg
  · exact hready

/-! ### The steps of the rest of the system -/

/-- Wakes, and changes of the event that do not set its flag. -/
theorem Watched.woke (h : Watched w) (hexec : Woke w.base.exec b.exec)
    (hphase : b.phase = w.base.phase)
    (hreg : (b.events 0).asyncWaiter = w.event.asyncWaiter)
    (hflag : (b.events 0).signaled = true → w.event.signaled = true) :
    Watched { w with base := b } := by
  refine ⟨?_, ?_, ?_⟩
  · intro hset
    exact hreg.trans (h.flag (hflag hset))
  · intro idx hidx hne hsus
    have hslot := slot_of_woke idx hexec
    have hold : Suspended w idx := ⟨hslot.1 ▸ hsus.1, hsus.2⟩
    have hne' : w.polled ≠ some idx := by
      rwa [World.polled, hphase] at hne
    rcases h.asleep idx hidx hne' hold with hold | hold
    · exact .inl (hreg.trans hold)
    · exact .inr (hslot.2 hold)
  · intro idx hidx hawaits
    rw [World.polled, hphase] at hidx
    rcases h.polled idx hidx hawaits with ⟨hold, hclear⟩
    refine ⟨hreg.trans hold, ?_⟩
    rw [Bool.eq_false_iff]
    intro hset
    simp [hflag hset] at hclear

theorem event_signal (cfg : Config) (w : World M N K) :
    (w.base.signal cfg 0).events 0 = (w.event.signal cfg w.base.sched w.base.exec).2.2.2 := by
  simp [Async.World.signal, Async.World.setEvent, World.event]

theorem Watched.signal (h : Watched w)
    (hok : ∀ idx ∈ w.polled, w.event.asyncWaiter = some idx → ¬ Awaits w idx) :
    Watched { w with base := w.base.signal cfg 0 } := by
  have hcases := signal_cases cfg w.base.sched w.base.exec w.event
  have hevent := event_signal cfg w
  have hexec : (w.base.signal cfg 0).exec =
      (w.event.signal cfg w.base.sched w.base.exec).2.2.1 := rfl
  rcases hcases with ⟨hsame, hreg, hflag⟩ | ⟨hreg, hset, hwho⟩
  · apply h.woke
    · rw [hexec, hsame]
      exact .refl _
    · rfl
    · rw [hevent, hreg]
    · rw [hevent, hflag]
      exact id
  · -- the flag is set and nobody is registered any more
    have hnobody : ∀ idx ∈ w.polled, ¬ Awaits w idx := by
      intro idx hidx hawaits
      exact hok idx hidx (h.polled idx hidx hawaits).1 hawaits
    refine ⟨?_, ?_, ?_⟩
    · intro _
      exact (congrArg EventInner.asyncWaiter hevent).trans hreg
    · intro idx hidx hne hsus
      right
      change ((w.base.signal cfg 0).exec.slots idx).ready = true
      rcases hwho with ⟨task, htask, hwoken⟩ | ⟨hnone, hsame⟩
      · have hwoke : Woke w.base.exec (w.base.exec.wakeTask task) := (Woke.refl _).wakeTask
        have hslot := slot_of_woke idx hwoke
        have hold : Suspended w idx := by
          refine ⟨?_, hsus.2⟩
          rw [← hslot.1, ← hwoken, ← hexec]
          exact hsus.1
        rw [hexec, hwoken]
        rcases h.asleep idx hidx hne hold with hreg' | hready
        · rw [htask, Option.some_inj] at hreg'
          subst hreg'
          exact ready_wakeTask hidx hold.1
        · exact hslot.2 hready
      · have hold : Suspended w idx := by
          refine ⟨?_, hsus.2⟩
          rw [← hsame, ← hexec]
          exact hsus.1
        rw [hexec, hsame]
        rcases h.asleep idx hidx hne hold with hreg' | hready
        · simp [hnone] at hreg'
        · exact hready
    · intro idx hidx hawaits
      exact absurd hawaits (hnobody idx hidx)

/-- A suspended task whose slot is not touched stays registered or ready. -/
theorem Watched.kept (h : Watched w) {e : Executor N ℕ} (hidx : idx < N)
    (hne : w.polled ≠ some idx) (hslot : e.slots idx = w.base.exec.slots idx)
    (hfull : (e.slots idx).future.isSome = true) (hawaits : Awaits w idx) :
    w.event.asyncWaiter = some idx ∨ (e.slots idx).ready = true := by
  rw [hslot] at hfull ⊢
  exact h.asleep idx hidx hne ⟨hfull, hawaits⟩

theorem Watched.spawn (h : Watched w) (name : String) :
    Watched { w with base := w.base.spawn asyncRt name } := by
  by_cases hfull : asyncRt = false ∨ ∀ j < N, w.base.exec.isFree j = false
  · rw [Async.World.spawn_of_full hfull]
    exact h
  · simp only [not_or, Bool.not_eq_false, not_forall, exists_prop] at hfull
    rcases Async.World.spawn_of_free name hfull.1 hfull.2 with ⟨i, hi, hfree, -, heq⟩
    rw [heq]
    refine ⟨h.flag, ?_, h.polled⟩
    intro idx hidx hne hsus
    by_cases hij : idx = i
    · right
      simp [Async.World.spawnAt, Executor.setSlot, hij]
    · exact h.kept hidx hne (by simp [Async.World.spawnAt, Executor.setSlot, hij]) hsus.1 hsus.2

theorem awaits_unawait {i : ℕ} :
    Awaits { w with base := b, waits := w.unawait (some i) } idx ↔ idx ≠ i ∧ Awaits w idx := by
  constructor
  · rintro ⟨j, howner, hawaited⟩
    simp only [World.unawait] at howner hawaited
    split_ifs at howner hawaited with hi
    exact ⟨fun hidx => hi (hidx ▸ howner), j, howner, hawaited⟩
  · rintro ⟨hidx, j, howner, hawaited⟩
    have hi : (w.waits j).owner ≠ some i := by
      rw [howner]
      exact fun heq => hidx (Option.some.inj heq)
    exact ⟨j, by simpa [World.unawait, hi] using howner, by simpa [World.unawait, hi] using hawaited⟩

theorem Watched.take (h : Watched w) {i f polled : ℕ} {b : Async.World M N}
    (hbefore : w.polled = none) (hexec : b.exec = w.base.exec.takeSlot i)
    (hphase : b.phase = .polling i f polled) (hevents : b.events = w.base.events) :
    Watched { w with base := b, waits := w.unawait (some i) } := by
  refine ⟨?_, ?_, ?_⟩
  · simpa only [World.event, hevents] using h.flag
  · intro idx hidx hne hsus
    rcases awaits_unawait.mp hsus.2 with ⟨hi, hawaits⟩
    have hslot : b.exec.slots idx = w.base.exec.slots idx := by
      simp [hexec, Executor.takeSlot, Executor.setWoken, Executor.setSlot, hi]
    rw [World.event, hevents]
    exact h.kept hidx (by simp [hbefore]) hslot hsus.1 hawaits
  · intro idx hidx hawaits
    simp only [World.polled, hphase, Phase.currentPollTask, Option.mem_some_iff] at hidx
    exact absurd hidx.symm (awaits_unawait.mp hawaits).1

theorem Watched.advance (h : Watched w) (hstep : Async.step asyncRt cfg w.base .advance = some b) :
    Watched (w.follow b .advance) := by
  rcases step_advance hstep with ⟨i, polled, hphase, rfl⟩
  have hbefore : w.polled = none := by
    rw [World.polled, hphase]
    rfl
  rcases w.base.advance_cases i polled with ⟨phase, hafter, heq⟩ | ⟨hfree, heq⟩ | ⟨f, -, -, heq⟩
  · rw [heq]
    simp only [World.follow, hafter]
    refine ⟨h.flag, ?_, ?_⟩
    · intro idx hidx _ hsus
      exact h.asleep idx hidx (by simp [hbefore]) hsus
    · intro idx hidx
      simp [World.polled, hafter] at hidx
  · rw [heq]
    simp only [World.follow, Phase.currentPollTask]
    refine ⟨h.flag, ?_, by rintro _ ⟨⟩⟩
    intro idx hidx _ hsus
    have hi : idx ≠ i := by
      rintro rfl
      simpa [Executor.takeSlot, Executor.setWoken, Executor.setSlot] using hsus.1
    refine h.kept hidx (by simp [hbefore]) ?_ hsus.1 hsus.2
    simp [Executor.takeSlot, Executor.setWoken, Executor.setSlot, hi]
  · rw [heq]
    exact h.take hbefore rfl rfl rfl

theorem Watched.pollReturns (h : Watched w) {result : Poll}
    (hstep : Async.step asyncRt cfg w.base (.pollReturns result) = some b) :
    Watched (w.follow b (.pollReturns result)) := by
  rcases step_pollReturns hstep with ⟨i, f, polled, hphase, rfl⟩
  have hi : w.polled = some i := by
    rw [World.polled, hphase]
    rfl
  cases result with
  | pending =>
    refine ⟨h.flag, ?_, by rintro _ ⟨⟩⟩
    intro idx hidx _ hsus
    by_cases hne : idx = i
    · subst hne
      exact .inl (h.polled idx hi hsus.2).1
    · refine h.kept hidx (by simp [hi, Ne.symm hne]) ?_ hsus.1 hsus.2
      simp [World.follow, Async.World.pollReturns, Executor.putBack, Executor.setSlot, hne]
  | ready =>
    simp only [World.follow, hi]
    refine ⟨h.flag, ?_, by rintro _ ⟨⟩⟩
    intro idx hidx _ hsus
    rcases awaits_unawait.mp hsus.2 with ⟨hne, hawaits⟩
    refine h.kept hidx (by simp [hi, Ne.symm hne]) ?_ hsus.1 hawaits
    rw [Async.World.pollReturns, Executor.complete_eq]
    simp [Executor.setWoken, Executor.setSlot, hne]

theorem wait_event (s : State) (ev : EventInner M) :
    (ev.wait s).2.2.asyncWaiter = ev.asyncWaiter ∧
      ((ev.wait s).2.2.signaled = true → ev.signaled = true) := by
  unfold EventInner.wait
  split_ifs
  · exact ⟨rfl, id⟩
  · exact ⟨rfl, by simp⟩
  · split
    · exact ⟨rfl, id⟩
    · split <;> exact ⟨rfl, id⟩

theorem events_setEvent (i : ℕ) (ev : EventInner M) :
    (b.setEvent i ev).events 0 = if i = 0 then ev else b.events 0 := by
  by_cases hi : i = 0
  · simp [hi, Async.World.setEvent]
  · rw [if_neg hi]
    exact Function.update_of_ne (Ne.symm hi) _ _

/-- Apart from `signal` and the waits, no step registers a task or sets the flag. -/
theorem event_of_step (hadmits : admits act) (hsignal : act ≠ .signal 0)
    (hstep : Async.step asyncRt cfg w.base act = some b) :
    (b.events 0).asyncWaiter = w.event.asyncWaiter ∧
      ((b.events 0).signaled = true → w.event.signaled = true) := by
  have hsame : b.events = w.base.events → (b.events 0).asyncWaiter = w.event.asyncWaiter ∧
      ((b.events 0).signaled = true → w.event.signaled = true) := by
    intro heq
    rw [heq]
    exact ⟨rfl, id⟩
  cases act with
  | spawn name =>
    cases hstep
    apply hsame
    rw [Async.World.spawn]
    split
    · rfl
    · rfl
  | pollOnce =>
    simp only [Async.step, Option.ite_none_right_eq_some, Option.some.injEq] at hstep
    exact hsame (by rw [← hstep.2])
  | advance =>
    rcases step_advance hstep with ⟨i, polled, -, rfl⟩
    apply hsame
    rcases w.base.advance_cases i polled with ⟨_, -, heq⟩ | ⟨-, heq⟩ | ⟨_, -, -, heq⟩
    · rw [heq]
    · rw [heq]
    · rw [heq]
  | pollReturns result =>
    rcases step_pollReturns hstep with ⟨i, f, polled, -, rfl⟩
    cases result with
    | ready | pending => exact hsame rfl
  | wakeTask i | tickUpdate | pollSleep f =>
    cases hstep
    exact hsame rfl
  | signal i =>
    cases hstep
    have hi : i ≠ 0 := fun heq => hsignal (congrArg _ heq)
    have hevent : (w.base.signal cfg i).events 0 = w.event := Function.update_of_ne (Ne.symm hi) _ _
    rw [hevent]
    exact ⟨rfl, id⟩
  | clear i =>
    cases hstep
    rw [events_setEvent]
    split_ifs with hi
    · subst hi
      exact ⟨rfl, by rintro ⟨⟩⟩
    · exact ⟨rfl, id⟩
  | eventLeave i task =>
    cases hstep
    rw [events_setEvent]
    split_ifs with hi
    · subst hi
      exact ⟨rfl, id⟩
    · exact ⟨rfl, id⟩
  | eventWait i =>
    cases hstep
    rw [Async.World.eventWait, events_setEvent]
    split_ifs with hi
    · subst hi
      exact wait_event w.base.sched w.event
    · exact ⟨rfl, id⟩
  | pollEvent i waiter | dropEvent i waiter =>
    cases hstep
    rw [events_setEvent, if_neg hadmits]
    exact ⟨rfl, id⟩
  | sched op =>
    rcases Option.map_eq_some_iff.mp hstep with ⟨s, -, rfl⟩
    exact hsame rfl

theorem Watched.base (h : Watched w) (hok : Careful w (.base act)) (hadmits : admits act)
    (hstep : Async.step asyncRt cfg w.base act = some b) : Watched (w.follow b act) := by
  have hevent := fun hsignal => event_of_step hadmits hsignal hstep
  cases act with
  | spawn name =>
    cases hstep
    exact h.spawn name
  | pollOnce =>
    simp only [Async.step, Option.ite_none_right_eq_some, Option.some.injEq] at hstep
    rcases hstep with ⟨⟨-, hidle⟩, rfl⟩
    have hbefore : w.polled = none := by
      rw [World.polled, hidle]
      rfl
    refine ⟨h.flag, ?_, by rintro _ ⟨⟩⟩
    intro idx hidx _ hsus
    exact h.asleep idx hidx (by simp [hbefore]) hsus
  | advance => exact h.advance hstep
  | pollReturns result => exact h.pollReturns hstep
  | wakeTask i =>
    cases hstep
    exact h.woke (Woke.refl _).wakeTask rfl rfl id
  | tickUpdate =>
    cases hstep
    exact h.woke (.tickUpdate asyncRt _) rfl rfl id
  | pollSleep f =>
    cases hstep
    exact h.woke (.pollSleep f _ _) rfl rfl id
  | signal i =>
    cases hstep
    by_cases hi : i = 0
    · subst hi
      exact h.signal (hok rfl)
    · have hother := hevent (by simpa using hi)
      exact h.woke (EventInner.signal_woke cfg _ _ _) rfl hother.1 hother.2
  | clear i | eventWait i | eventLeave i task | pollEvent i waiter | dropEvent i waiter =>
    cases hstep
    have hother := hevent (by simp)
    exact h.woke (.refl _) rfl hother.1 hother.2
  | sched op =>
    rcases Option.map_eq_some_iff.mp hstep with ⟨s, -, rfl⟩
    exact h.woke (.refl _) rfl rfl id

/-! ### The steps of the waits -/

theorem awaits_update {r : Option ℕ} {j : Fin K} {wait : EventWait} :
    Awaits (⟨b, Function.update w.waits j wait, r⟩ : World M N K) idx →
      (wait.owner = some idx ∧ wait.awaited = true) ∨
        ∃ k, k ≠ j ∧ (w.waits k).owner = some idx ∧ (w.waits k).awaited = true := by
  rintro ⟨k, howner, hawaited⟩
  by_cases hk : k = j
  · subst hk
    simp only [Function.update_self] at howner hawaited
    exact .inl ⟨howner, hawaited⟩
  · simp only [Function.update_of_ne hk] at howner hawaited
    exact .inr ⟨k, hk, howner, hawaited⟩

/-- A poll takes a set flag, or registers its task unless another one is registered. -/
theorem pollWait_cases (ev : EventInner M) (i : ℕ) (waiter : Option ℕ) :
    let r := ev.pollWait (some i) waiter
    r.2.2.signaled = false ∧
      ((ev.signaled = true ∧ r.1 = true ∧ r.2.1 = none ∧
          (r.2.2.asyncWaiter = none ∨ r.2.2.asyncWaiter = ev.asyncWaiter)) ∨
        ev.signaled = false ∧ r.1 = false ∧
          (((ev.asyncWaiter = none ∨ ev.asyncWaiter = some i) ∧ r.2.1 = some i ∧
              r.2.2.asyncWaiter = some i) ∨
            ¬ (ev.asyncWaiter = none ∨ ev.asyncWaiter = some i) ∧ r.2.1 = waiter ∧
              r.2.2.asyncWaiter = ev.asyncWaiter)) := by
  rcases hflag : ev.signaled with - | -
  · by_cases hreg : ev.asyncWaiter = none ∨ ev.asyncWaiter = some i
    · simp [EventInner.pollWait, hflag, hreg]
    · simp [EventInner.pollWait, hflag, hreg]
  · by_cases hreg : ev.asyncWaiter = some i
    · simp [EventInner.pollWait, hflag, hreg]
    · simp [EventInner.pollWait, hflag, hreg]

theorem dropWait_cases (ev : EventInner M) (waiter : Option ℕ) :
    (ev.dropWait waiter).signaled = ev.signaled ∧
      ((ev.dropWait waiter).asyncWaiter = ev.asyncWaiter ∨
        ∃ i, waiter = some i ∧ ev.asyncWaiter = some i ∧ (ev.dropWait waiter).asyncWaiter = none) := by
  unfold EventInner.dropWait
  split
  · exact ⟨rfl, .inl rfl⟩
  · split_ifs with hreg
    · exact ⟨rfl, .inr ⟨_, rfl, hreg, rfl⟩⟩
    · exact ⟨rfl, .inl rfl⟩

theorem event_pollWait (j : Fin K) (i f : ℕ) :
    (w.pollWait j i f).event = (w.event.pollWait (some i) (w.waits j).waiter).2.2 := by
  simp [World.pollWait, World.event, Async.World.setEvent]

theorem event_dropWait (j : Fin K) :
    (w.dropWait j).event = w.event.dropWait (w.waits j).waiter := by
  simp [World.dropWait, World.event, Async.World.setEvent]

theorem step_poll {j : Fin K} (hstep : step asyncRt cfg w (.poll j) = some w') :
    w' = w ∨ ∃ i f, w.polled = some i ∧ w.base.phase.polledAt i = some f ∧
      w' = w.pollWait j i f := by
  simp only [step] at hstep
  split at hstep
  next i f polled hphase =>
    right
    exact ⟨i, f, by rw [World.polled, hphase]; rfl, by simp [hphase],
      (Option.some.inj hstep).symm⟩
  next => exact .inl (Option.some.inj hstep).symm

theorem Watched.poll (h : Watched w) {j : Fin K} {i f : ℕ} (hi : w.polled = some i)
    (hok : Careful w (.poll j)) : Watched (w.pollWait j i f) := by
  have hevent := event_pollWait (w := w) j i f
  have hother : ∀ idx, w.polled ≠ some idx → Awaits (w.pollWait j i f) idx → Awaits w idx := by
    intro idx hne hawaits
    rcases awaits_update hawaits with ⟨hself, -⟩ | ⟨k, -, hk⟩
    · exact absurd (hi.trans hself) hne
    · exact ⟨k, hk⟩
  have hreg : (w.pollWait j i f).event.asyncWaiter = none ∧ w.event.asyncWaiter = none ∨
      (w.pollWait j i f).event.asyncWaiter = some i ∧
        (w.event.asyncWaiter = none ∨ w.event.asyncWaiter = some i) := by
    rw [hevent]
    rcases pollWait_cases w.event i (w.waits j).waiter with
      ⟨-, ⟨hset, -, -, hnone | hsame⟩ | ⟨hclear, -, ⟨hfree, -, hnew⟩ | ⟨hfull, -⟩⟩⟩
    · exact .inl ⟨hnone, h.flag hset⟩
    · exact .inl ⟨hsame.trans (h.flag hset), h.flag hset⟩
    · exact .inr ⟨hnew, hfree⟩
    · simp only [Careful, hclear, hi, Bool.false_eq_true, false_or] at hok
      exact absurd hok hfull
  refine ⟨?_, ?_, ?_⟩
  · intro hset
    rw [hevent, (pollWait_cases w.event i (w.waits j).waiter).1] at hset
    cases hset
  · intro idx hidx hne hsus
    rcases h.asleep idx hidx hne ⟨hsus.1, hother idx hne hsus.2⟩ with hold | hready
    · have hidxi : some idx ≠ some i := by
        rw [← hi]
        exact Ne.symm hne
      rcases hreg with ⟨-, hnone⟩ | ⟨-, hnone | hself⟩
      · simp [hold] at hnone
      · simp [hold] at hnone
      · exact absurd (hold.symm.trans hself) hidxi
    · exact .inr hready
  · intro idx hidx hawaits
    obtain rfl : i = idx := Option.some.inj (hi.symm.trans hidx)
    refine ⟨?_, by rw [hevent]; exact (pollWait_cases w.event i (w.waits j).waiter).1⟩
    rcases hreg with ⟨hnew, hnone⟩ | ⟨hnew, -⟩
    · -- the flag was set: then nothing was awaited before, and this wait is ready
      rcases pollWait_cases w.event i (w.waits j).waiter with
        ⟨-, ⟨hset, hready, -, -⟩ | ⟨-, -, ⟨-, -, hself⟩ | ⟨hfull, -⟩⟩⟩
      · rcases awaits_update hawaits with ⟨-, hself⟩ | ⟨k, -, hk⟩
        · change (!(w.event.pollWait (some i) (w.waits j).waiter).1) = true at hself
          simp [hready] at hself
        · have hclear := (h.polled i hi ⟨k, hk⟩).2
          simp [hset] at hclear
      · rw [hevent]
        exact hself
      · exact absurd (.inl hnone) hfull
    · exact hnew

theorem Watched.drop (h : Watched w) {j : Fin K} (hok : Careful w (.drop j)) :
    Watched (w.dropWait j) := by
  have hevent := event_dropWait (w := w) j
  have hothers : ∀ idx, Awaits (w.dropWait j) idx →
      ∃ k, k ≠ j ∧ (w.waits k).owner = some idx ∧ (w.waits k).awaited = true := by
    intro idx hawaits
    rcases awaits_update hawaits with ⟨hself, -⟩ | hother
    · cases hself
    · exact hother
  have hawaits : ∀ idx, Awaits (w.dropWait j) idx → Awaits w idx := by
    intro idx hnew
    rcases hothers idx hnew with ⟨k, -, hk⟩
    exact ⟨k, hk⟩
  rcases dropWait_cases w.event (w.waits j).waiter with ⟨hflag, hreg⟩
  -- the registration goes only if nothing else of the task is awaited
  have hkept : ∀ idx, Awaits (w.dropWait j) idx → w.event.asyncWaiter = some idx →
      (w.dropWait j).event.asyncWaiter = some idx := by
    intro idx hnew hold
    rw [hevent]
    rcases hreg with hsame | ⟨t, hwaiter, ht, -⟩
    · rw [hsame, hold]
    · rcases hothers idx hnew with ⟨k, hk, hkowner, hkawaited⟩
      have hnot := hok (ht.trans hwaiter.symm) idx hold k hk hkowner
      simp [hkawaited] at hnot
  refine ⟨?_, ?_, ?_⟩
  · intro hset
    rw [hevent, hflag] at hset
    rw [hevent]
    rcases hreg with hsame | ⟨t, -, -, hnone⟩
    · rw [hsame]
      exact h.flag hset
    · exact hnone
  · intro idx hidx hne hsus
    rcases h.asleep idx hidx hne ⟨hsus.1, hawaits idx hsus.2⟩ with hold | hready
    · exact .inl (hkept idx hsus.2 hold)
    · exact .inr hready
  · intro idx hidx hnew
    rcases h.polled idx hidx (hawaits idx hnew) with ⟨hold, hclear⟩
    exact ⟨hkept idx hnew hold, by rw [hevent, hflag, hclear]⟩

theorem Watched.step (h : Watched w) {a : Act K} (hok : Careful w a)
    (hstep : step asyncRt cfg w a = some w') : Watched w' := by
  cases a with
  | base act =>
    simp only [EventWaits.step, Option.ite_none_right_eq_some] at hstep
    rcases Option.map_eq_some_iff.mp hstep.2 with ⟨b, hb, rfl⟩
    exact h.base hok hstep.1 hb
  | poll j =>
    rcases step_poll hstep with rfl | ⟨i, f, hi, -, rfl⟩
    · exact h
    · exact h.poll hi hok
  | drop j =>
    cases hstep
    exact h.drop hok

/-! ### Registrations and their tasks -/

/-- A registration that a wait can remove was made by the task that polled the wait last. -/
def Owned (w : World M N K) : Prop := ∀ j idx, (w.waits j).waiter = some idx →
  w.event.asyncWaiter = some idx → (w.waits j).future = w.registrant

theorem Owned.dropsOwn (h : Owned w) : DropsOwn w := by
  intro j idx hreg hfuture
  rw [event_dropWait]
  rcases dropWait_cases w.event (w.waits j).waiter with ⟨-, hsame | ⟨t, hwaiter, ht, -⟩⟩
  · rw [hsame, hreg]
  · exact absurd (h j t hwaiter ht) hfuture

theorem waits_follow (j : Fin K) : ((w.follow b act).waits j).waiter = (w.waits j).waiter ∧
    ((w.follow b act).waits j).future = (w.waits j).future := by
  have hunawait : ∀ i, (w.unawait i j).waiter = (w.waits j).waiter ∧
      (w.unawait i j).future = (w.waits j).future := by
    intro i
    unfold World.unawait
    split_ifs
    · exact ⟨rfl, rfl⟩
    · exact ⟨rfl, rfl⟩
  unfold World.follow
  split
  · split
    · exact hunawait _
    · exact ⟨rfl, rfl⟩
  · exact hunawait _
  · exact ⟨rfl, rfl⟩

theorem base_follow : (w.follow b act).base = b ∧
    (w.follow b act).registrant = w.registrant := by
  unfold World.follow
  split
  · split
    · exact ⟨rfl, rfl⟩
    · exact ⟨rfl, rfl⟩
  · exact ⟨rfl, rfl⟩
  · exact ⟨rfl, rfl⟩

theorem Owned.base (h : Owned w) (hadmits : admits act)
    (hstep : Async.step asyncRt cfg w.base act = some b) : Owned (w.follow b act) := by
  intro j idx hwaiter hreg
  rw [(waits_follow j).1] at hwaiter
  rw [(waits_follow j).2, base_follow.2]
  rw [World.event, base_follow.1] at hreg
  refine h j idx hwaiter ?_
  by_cases hsignal : act = .signal 0
  · subst hsignal
    cases hstep
    rw [event_signal] at hreg
    rcases signal_cases cfg w.base.sched w.base.exec w.event with ⟨-, hsame, -⟩ | ⟨hnone, -, -⟩
    · rw [← hsame, hreg]
    · simp [hnone] at hreg
  · rw [← (event_of_step hadmits hsignal hstep).1, hreg]

theorem Owned.poll (h : Owned w) {j : Fin K} {i f : ℕ}
    (hself : (w.waits j).waiter = none ∨ (w.waits j).future = some f)
    (hslot : ∀ k, (w.waits k).waiter = some i → (w.waits k).future = some f) :
    Owned (w.pollWait j i f) := by
  intro k idx hwaiter hreg
  rw [event_pollWait] at hreg
  simp only [World.pollWait] at hwaiter ⊢
  rcases pollWait_cases w.event i (w.waits j).waiter with
    ⟨-, ⟨-, hready, hnone, hsame⟩ | ⟨-, hpending, ⟨-, hsome, hnew⟩ | ⟨hother, hold, hsame⟩⟩⟩
  · -- the wait is ready and registered no more; the other waits are as before
    simp only [hready, Bool.true_eq_false, false_and, if_false]
    have hk : k ≠ j := by
      rintro rfl
      simp [hnone] at hwaiter
    rw [Function.update_of_ne hk] at hwaiter ⊢
    rcases hsame with hsame | hsame
    · simp [hsame] at hreg
    · exact h k idx hwaiter (hsame ▸ hreg)
  · -- the task is registered, and no other task has a wait under its slot
    obtain rfl : i = idx := Option.some.inj (hnew.symm.trans hreg)
    rw [if_pos ⟨hpending, hnew⟩]
    by_cases hk : k = j
    · subst hk
      simp
    · rw [Function.update_of_ne hk] at hwaiter ⊢
      exact hslot k hwaiter
  · have hne : ¬ (w.event.pollWait (some i) (w.waits j).waiter).2.2.asyncWaiter = some i := by
      rw [hsame]
      exact fun heq => hother (.inr heq)
    rw [if_neg (fun hand => hne hand.2)]
    rw [hsame] at hreg
    by_cases hk : k = j
    · subst hk
      simp only [Function.update_self, hold] at hwaiter ⊢
      rcases hself with hself | hself
      · simp [hself] at hwaiter
      · rw [← hself]
        exact h k idx hwaiter hreg
    · rw [Function.update_of_ne hk] at hwaiter ⊢
      exact h k idx hwaiter hreg

theorem Owned.drop (h : Owned w) {j : Fin K} : Owned (w.dropWait j) := by
  intro k idx hwaiter hreg
  have hk : k ≠ j := by
    rintro rfl
    simp [World.dropWait, EventWait.fresh] at hwaiter
  simp only [World.dropWait, Function.update_of_ne hk] at hwaiter ⊢
  rw [event_dropWait] at hreg
  refine h k idx hwaiter ?_
  rcases dropWait_cases w.event (w.waits j).waiter with ⟨-, hsame | ⟨t, -, -, hnone⟩⟩
  · rw [← hsame, hreg]
  · simp [hnone] at hreg

theorem Owned.step (h : Owned w) {a : Act K} (hok : PollsOwn w a)
    (hstep : step asyncRt cfg w a = some w') : Owned w' := by
  cases a with
  | base act =>
    simp only [EventWaits.step, Option.ite_none_right_eq_some] at hstep
    rcases Option.map_eq_some_iff.mp hstep.2 with ⟨b, hb, rfl⟩
    exact h.base hstep.1 hb
  | poll j =>
    rcases step_poll hstep with rfl | ⟨i, f, hi, hf, rfl⟩
    · exact h
    · rcases hok i hi f hf with ⟨hself, hslot⟩
      exact h.poll hself hslot
  | drop j =>
    cases hstep
    exact h.drop

/-- In a run of careful steps no suspended task is forgotten, and as long as tasks poll only what is
theirs, dropping a wait leaves the registrations of other tasks. -/
theorem no_waiter_forgotten (M N K : ℕ) (asyncRt : Bool) (cfg : Config) (s : State)
    (acts : List (Act K)) :
    (Along (step asyncRt cfg) Careful (World.new M N K s) acts →
        Always (step asyncRt cfg) NoForgottenWaiter (World.new M N K s) acts) ∧
      (Along (step asyncRt cfg) PollsOwn (World.new M N K s) acts →
        Always (step asyncRt cfg) DropsOwn (World.new M N K s) acts) := by
  constructor
  · intro hok
    have hstart : Watched (World.new M N K s) := by
      refine ⟨(by rintro ⟨⟩), ?_, by rintro _ ⟨⟩⟩
      intro idx _ _ hsus
      cases hsus.1
    exact (hok.always (P := Watched) (fun w a w' h hok hstep => h.step hok hstep) hstart).imp
      fun w h => h.noForgottenWaiter
  · intro hok
    have hstart : Owned (World.new M N K s) := by rintro _ _ ⟨⟩
    exact (hok.always (P := Owned) (fun w a w' h hok hstep => h.step hok hstep) hstart).imp
      fun w h => h.dropsOwn

/-- Two tasks poll a wait, the second one wait `j`, so that only the first is registered. -/
def bothWait (j : Fin 2) : List (Act 2) :=
  [.base (.spawn "a"), .base (.spawn "b"), .base .pollOnce, .base .advance, .poll 0,
    .base (.pollReturns .pending), .base .advance, .poll j, .base (.pollReturns .pending),
    .base .advance]

/-- The first signal wakes the first task, which ends; the second signal wakes nobody, although the
second task is suspended. And when the second task has polled the wait of the first, dropping it
removes the registration of the first. -/
theorem second_waiter_is_forgotten :
    ∃ s, initSystemTasks .small (.ofPriority 0) (.ofPriority 1) (init .small .blank) = some s ∧
      (∃ w, run (step true .small) (World.new 1 2 2 s) (bothWait 1 ++ [.base (.signal 0),
        .base .pollOnce, .base .advance, .poll 0, .base (.pollReturns .ready), .drop 0,
        .base .advance, .base .advance, .base (.signal 0)]) = some w ∧ ¬ NoForgottenWaiter w) ∧
      ∃ w, run (step true .small) (World.new 1 2 2 s) (bothWait 0) = some w ∧ ¬ DropsOwn w := by
  have htest : (initSystemTasks .small (.ofPriority 0) (.ofPriority 1) (init .small .blank)).any
      (fun s => (run (step true .small) (World.new 1 2 2 s) (bothWait 1 ++ [.base (.signal 0),
          .base .pollOnce, .base .advance, .poll 0, .base (.pollReturns .ready), .drop 0,
          .base .advance, .base .advance, .base (.signal 0)])).any (fun w => decide
            (w.polled = none ∧ w.event.signaled = true ∧
              (w.base.exec.slots 1).future.isSome = true ∧ Awaits w 1 ∧
              ∀ idx < 2, (w.base.exec.slots idx).ready = false)) &&
        (run (step true .small) (World.new 1 2 2 s) (bothWait 0)).any (fun w => decide
          (w.event.asyncWaiter = some 0 ∧ (w.waits 0).future ≠ w.registrant ∧
            (w.dropWait 0).event.asyncWaiter = none))) = true := by
    decide +kernel
  rcases (Option.any_eq_true _ _).mp htest with ⟨s, hs, hfacts⟩
  rw [Bool.and_eq_true] at hfacts
  rcases (Option.any_eq_true _ _).mp hfacts.1 with ⟨w, hrun, hforgotten⟩
  rcases of_decide_eq_true hforgotten with ⟨hpolled, hset, hfull, hawaits, hready⟩
  rcases (Option.any_eq_true _ _).mp hfacts.2 with ⟨v, hrun', hdropped⟩
  rcases of_decide_eq_true hdropped with ⟨hreg, hfuture, hgone⟩
  refine ⟨s, hs, ⟨w, hrun, ?_⟩, v, hrun', ?_⟩
  · intro hno
    rcases hno hpolled hset ⟨1, by decide, hfull, hawaits⟩ with ⟨idx, hidx, -, hmarked⟩
    simp [hready idx hidx] at hmarked
  · intro hdrops
    have hkept := hdrops 0 0 hreg hfuture
    simp [hgone] at hkept

def oneWaits : List (Act 2) :=
  [.base (.spawn "a"), .base .pollOnce, .base .advance, .poll 0, .base (.pollReturns .pending),
    .base .advance, .base (.signal 0), .base .advance, .base .pollOnce, .base .advance, .poll 0,
    .base (.pollReturns .ready), .drop 0]

theorem only_waiter_is_woken :
    ∃ s, initSystemTasks .small (.ofPriority 0) (.ofPriority 1) (init .small .blank) = some s ∧
      (run (step true .small) (World.new 1 2 2 s) oneWaits).isSome = true ∧
      Always (step true .small) NoForgottenWaiter (World.new 1 2 2 s) oneWaits ∧
      Always (step true .small) DropsOwn (World.new 1 2 2 s) oneWaits := by
  have htest : (initSystemTasks .small (.ofPriority 0) (.ofPriority 1) (init .small .blank)).any
      (fun s => decide ((run (step true .small) (World.new 1 2 2 s) oneWaits).isSome = true ∧
        Along (step true .small) Careful (World.new 1 2 2 s) oneWaits ∧
        Along (step true .small) PollsOwn (World.new 1 2 2 s) oneWaits)) = true := by
    decide +kernel
  rcases (Option.any_eq_true _ _).mp htest with ⟨s, hs, hfacts⟩
  rcases of_decide_eq_true hfacts with ⟨hsome, hcareful, hown⟩
  have hboth := no_waiter_forgotten 1 2 2 true .small s oneWaits
  exact ⟨s, hs, hsome, hboth.1 hcareful, hboth.2 hown⟩

end OpenIon.Sched.Async.EventWaits
