import OpenIon.Sched.Async.Executor
import Mathlib.Data.Finset.Card
import Mathlib.Data.Finset.Range

/-! # The sleep slots as a table of deadlines

The sleep slots in use belong to different tasks, so that there is always one left for a
task that has none. `register_sleep` sets the deadline of a task, `clear_sleep` removes
it, and `tick_update` removes the deadlines that are due and marks their tasks.
-/
namespace OpenIon.Sched.Async
open Lib

variable {φ : Type*} {N : ℕ} {e m : Executor N φ} {idx taskIdx : ℕ} {d wakeTick now : UInt32}

def Executor.HasSleep (e : Executor N φ) (taskIdx : ℕ) (wakeTick : UInt32) : Prop :=
  ∃ i < N, e.sleepSlots i = ⟨some taskIdx, wakeTick, true⟩

/-- The sleep slots in use belong to different tasks of the executor. -/
structure Executor.SleepsDistinct (e : Executor N φ) : Prop where
  task : ∀ i < N, (e.sleepSlots i).active = true → ∃ idx < N, (e.sleepSlots i).taskIdx = some idx
  inj : ∀ i < N, ∀ j < N, (e.sleepSlots i).active = true → (e.sleepSlots j).active = true →
    (e.sleepSlots i).taskIdx = (e.sleepSlots j).taskIdx → i = j

/-- What the first `n` turns of the loop of `tick_update` have done. -/
structure Executor.Ticked (now : UInt32) (n : ℕ) (e m : Executor N φ) : Prop where
  woke : Woke e m
  sleeps : ∀ k, m.sleepSlots k =
    if k < n ∧ (e.sleepSlots k).active = true ∧ isDue now (e.sleepSlots k).wakeTick = true then .empty
    else e.sleepSlots k
  marked : ∀ k < n, ∀ idx < N, ∀ d, e.sleepSlots k = ⟨some idx, d, true⟩ → isDue now d = true →
    (e.slots idx).future.isSome = true → (m.slots idx).ready = true

namespace Executor

@[simp] theorem sleepSlots_setSleep (e : Executor N φ) (i : ℕ) (slot : SleepSlot) :
    (e.setSleep i slot).sleepSlots = Function.update e.sleepSlots i slot := rfl

@[simp] theorem sleepSlots_markReady (e : Executor N φ) (idx : ℕ) :
    (e.markReady idx).sleepSlots = e.sleepSlots := by
  unfold markReady
  split_ifs
  · rfl
  · rfl
  · rfl

theorem findSleep_eq_some {i : ℕ} (h : e.findSleep taskIdx = some i) :
    i < N ∧ (e.sleepSlots i).active = true ∧ (e.sleepSlots i).taskIdx = some taskIdx := by
  have hfound := List.find?_some h
  rw [Bool.and_eq_true, beq_iff_eq] at hfound
  exact ⟨List.mem_range.mp (List.mem_of_find?_eq_some h), hfound⟩

theorem findSleep_eq_none (h : e.findSleep taskIdx = none) {i : ℕ} (hi : i < N)
    (hactive : (e.sleepSlots i).active = true) : (e.sleepSlots i).taskIdx ≠ some taskIdx := by
  have hnot := List.find?_eq_none.mp h i (List.mem_range.mpr hi)
  simpa [hactive] using hnot

theorem HasSleep.congr (h : e.HasSleep idx d) (heq : m.sleepSlots = e.sleepSlots) :
    m.HasSleep idx d := by
  rwa [HasSleep, heq]

theorem SleepsDistinct.congr (h : e.SleepsDistinct) (heq : m.sleepSlots = e.sleepSlots) :
    m.SleepsDistinct := by
  constructor
  · rw [heq]
    exact h.task
  · rw [heq]
    exact h.inj

theorem HasSleep.setSleep_of_ne {i : ℕ} {slot : SleepSlot} (h : e.HasSleep idx d)
    (hi : (e.sleepSlots i).active = true → (e.sleepSlots i).taskIdx ≠ some idx) :
    (e.setSleep i slot).HasSleep idx d := by
  obtain ⟨k, hk, hslot⟩ := h
  have hki : k ≠ i := by
    rintro rfl
    rw [hslot] at hi
    exact hi rfl rfl
  exact ⟨k, hk, by rw [sleepSlots_setSleep, Function.update_of_ne hki, hslot]⟩

theorem HasSleep.registerSleep_of_ne (h : e.HasSleep idx d) (hne : idx ≠ taskIdx) :
    (e.registerSleep taskIdx wakeTick).HasSleep idx d := by
  unfold registerSleep
  split
  next i hfind =>
    apply h.setSleep_of_ne
    rw [(findSleep_eq_some hfind).2.2]
    intro _ heq
    exact hne (Option.some.inj heq).symm
  next =>
    split
    next i hfree =>
      apply h.setSleep_of_ne
      intro hactive
      have hinactive := List.find?_some hfree
      simp [hactive] at hinactive
    next =>
      obtain ⟨k, hk, hslot⟩ := h
      exact ⟨k, hk, by rw [sleepSlots_markReady, hslot]⟩

theorem HasSleep.clearSleep_of_ne (h : e.HasSleep idx d) (hne : idx ≠ taskIdx) :
    (e.clearSleep taskIdx).HasSleep idx d := by
  unfold clearSleep
  split
  next i hfind =>
    apply h.setSleep_of_ne
    rw [(findSleep_eq_some hfind).2.2]
    intro _ heq
    exact hne (Option.some.inj heq).symm
  next => exact h

/-! ### One slot for each task -/

/-- When a task has no slot, one of the slots is not in use: there are as many as tasks. -/
theorem SleepsDistinct.exists_inactive (h : e.SleepsDistinct) (htask : taskIdx < N)
    (hnone : e.findSleep taskIdx = none) : ∃ i < N, (e.sleepSlots i).active = false := by
  by_contra hfull
  simp only [not_exists, not_and, Bool.not_eq_false] at hfull
  -- the slots would be mapped injectively to the other tasks
  have hcard : (Finset.range N).card ≤ ((Finset.range N).erase taskIdx).card := by
    apply Finset.card_le_card_of_injOn fun i => ((e.sleepSlots i).taskIdx).getD 0
    · intro i hi
      have hi : i < N := Finset.mem_range.mp hi
      obtain ⟨idx, hidx, htask⟩ := h.task i hi (hfull i hi)
      have hne := findSleep_eq_none hnone hi (hfull i hi)
      rw [htask] at hne
      have hidxne : idx ≠ taskIdx := fun heq => hne (congrArg some heq)
      simp [htask, hidx, hidxne]
    · intro i hi j hj heq
      have hi : i < N := Finset.mem_range.mp hi
      have hj : j < N := Finset.mem_range.mp hj
      obtain ⟨a, -, ha⟩ := h.task i hi (hfull i hi)
      obtain ⟨b, -, hb⟩ := h.task j hj (hfull j hj)
      apply h.inj i hi j hj (hfull i hi) (hfull j hj)
      simpa [ha, hb] using heq
  rw [Finset.card_erase_of_mem (Finset.mem_range.mpr htask), Finset.card_range] at hcard
  omega

/-- Writing a slot of the task, or one that is not in use when the task has none. -/
theorem SleepsDistinct.setSleep (h : e.SleepsDistinct) {i : ℕ} {slot : SleepSlot}
    (hslot : slot.active = true → ∃ idx < N, slot.taskIdx = some idx ∧
      ∀ k < N, k ≠ i → (e.sleepSlots k).active = true → (e.sleepSlots k).taskIdx ≠ some idx) :
    (e.setSleep i slot).SleepsDistinct := by
  constructor
  · intro k hk hactive
    by_cases hki : k = i
    · subst hki
      simp only [sleepSlots_setSleep, Function.update_self] at hactive ⊢
      obtain ⟨idx, hidx, htask, -⟩ := hslot hactive
      exact ⟨idx, hidx, htask⟩
    · simp only [sleepSlots_setSleep, Function.update_of_ne hki] at hactive ⊢
      exact h.task k hk hactive
  · intro k hk l hl hactk hactl heq
    by_cases hki : k = i
    · by_cases hli : l = i
      · rw [hki, hli]
      · subst hki
        simp only [sleepSlots_setSleep, Function.update_self, Function.update_of_ne hli]
          at hactk hactl heq
        obtain ⟨idx, -, htask, hother⟩ := hslot hactk
        exact absurd (heq.symm.trans htask) (hother l hl hli hactl)
    · by_cases hli : l = i
      · subst hli
        simp only [sleepSlots_setSleep, Function.update_self, Function.update_of_ne hki]
          at hactk hactl heq
        obtain ⟨idx, -, htask, hother⟩ := hslot hactl
        exact absurd (heq.trans htask) (hother k hk hki hactk)
      · simp only [sleepSlots_setSleep, Function.update_of_ne hki, Function.update_of_ne hli]
          at hactk hactl heq
        exact h.inj k hk l hl hactk hactl heq

/-- The table never runs full, and the task has its deadline afterwards. -/
theorem SleepsDistinct.registerSleep (h : e.SleepsDistinct) (htask : taskIdx < N)
    (wakeTick : UInt32) :
    (e.registerSleep taskIdx wakeTick).SleepsDistinct ∧
      (e.registerSleep taskIdx wakeTick).HasSleep taskIdx wakeTick := by
  unfold Executor.registerSleep
  split
  next i hfind =>
    obtain ⟨hi, hactive, hidx⟩ := findSleep_eq_some hfind
    constructor
    · apply h.setSleep
      intro _
      refine ⟨taskIdx, htask, hidx, ?_⟩
      intro k hk hki hact heq
      exact hki (h.inj k hk i hi hact hactive (heq.trans hidx.symm))
    · exact ⟨i, hi, by simp [hidx, hactive]⟩
  next hnone =>
    obtain ⟨j, hj, hinactive⟩ := h.exists_inactive htask hnone
    split
    next i hfree =>
      have hi := List.mem_range.mp (List.mem_of_find?_eq_some hfree)
      constructor
      · apply h.setSleep
        intro _
        exact ⟨taskIdx, htask, rfl, fun k hk _ hact => findSleep_eq_none hnone hk hact⟩
      · exact ⟨i, hi, by rw [sleepSlots_setSleep, Function.update_self]⟩
    next hfull =>
      have hactive := List.find?_eq_none.mp hfull j (List.mem_range.mpr hj)
      simp [hinactive] at hactive

theorem SleepsDistinct.clearSleep (h : e.SleepsDistinct) :
    (e.clearSleep taskIdx).SleepsDistinct := by
  unfold Executor.clearSleep
  split
  · exact h.setSleep (by rintro ⟨⟩)
  · exact h

theorem sleepSlots_complete (e : Executor N φ) (idx : ℕ) :
    (e.complete idx).sleepSlots = (e.clearSleep idx).sleepSlots := by
  have hfind : ((e.setSlot idx { e.slots idx with name := "", ready := false }).setWoken idx
      false).findSleep idx = e.findSleep idx := rfl
  rw [complete, clearSleep, clearSleep, hfind]
  split
  · rfl
  · rfl

/-! ### The tick -/

theorem Ticked.turn {n : ℕ} (h : Ticked now n e m) : Ticked now (n + 1) e (wakeSleep now n m) := by
  have hsame : m.sleepSlots n = e.sleepSlots n := by simp [h.sleeps n]
  have hwoke := h.woke.wakeSleep now n
  have hslot := fun idx => slot_of_woke idx ((Woke.refl m).wakeSleep now n)
  refine ⟨hwoke, ?_, ?_⟩
  · intro k
    have hk : k < n + 1 ↔ k < n ∨ k = n := by omega
    by_cases hkn : k = n
    · subst hkn
      by_cases hdue : (e.sleepSlots k).active = true ∧ isDue now (e.sleepSlots k).wakeTick = true
      · cases htask : (e.sleepSlots k).taskIdx with
        | none => simp [wakeSleep, hsame, hdue, htask]
        | some idx => simp [wakeSleep, hsame, hdue, htask]
      · simp only [wakeSleep, hsame, Bool.and_eq_true, hdue, if_false, and_false]
    · have hother : (wakeSleep now n m).sleepSlots k = m.sleepSlots k := by
        simp only [wakeSleep]
        split_ifs
        · split
          · simp [hkn]
          · simp [hkn]
        · rfl
      simp only [hother, h.sleeps k, hk, hkn, or_false]
  · intro k hk idx hidx d hsleep hdue hfuture
    by_cases hkn : k = n
    · subst hkn
      have hfuture' : (m.slots idx).future.isSome = true := by
        rwa [(slot_of_woke idx h.woke).1]
      have hturn : wakeSleep now k m = (m.setSleep k .empty).markReady idx := by
        simp [wakeSleep, hsame, hsleep, hdue]
      rw [hturn, slots_markReady]
      simp [setSleep, hidx, hfuture']
    · exact (hslot idx).2 (h.marked k (by omega) idx hidx d hsleep hdue hfuture)

theorem tickUpdate_ticked (e : Executor N φ) (now : UInt32) :
    Ticked now N e (e.tickUpdate true now) := by
  rw [tickUpdate, if_pos rfl]
  apply forRange_induction (fun n m => Ticked now n e m)
  · exact ⟨.refl e, fun k => by simp, fun k hk => absurd hk (Nat.not_lt_zero k)⟩
  · intro n _ m h
    exact h.turn

theorem HasSleep.ready_tickUpdate (h : e.HasSleep idx d) (hidx : idx < N) (hdue : isDue now d = true)
    (hfuture : (e.slots idx).future.isSome = true) :
    ((e.tickUpdate true now).slots idx).ready = true := by
  obtain ⟨k, hk, hslot⟩ := h
  exact (e.tickUpdate_ticked now).marked k hk idx hidx d hslot hdue hfuture

theorem HasSleep.tickUpdate (h : e.HasSleep idx d) (hnot : isDue now d = false) :
    (e.tickUpdate true now).HasSleep idx d := by
  obtain ⟨k, hk, hslot⟩ := h
  refine ⟨k, hk, ?_⟩
  rw [(e.tickUpdate_ticked now).sleeps k, hslot]
  simp [hnot]

theorem SleepsDistinct.tickUpdate (h : e.SleepsDistinct) :
    (e.tickUpdate true now).SleepsDistinct := by
  have hsleeps := (e.tickUpdate_ticked now).sleeps
  have hkept : ∀ k, ((e.tickUpdate true now).sleepSlots k).active = true →
      (e.tickUpdate true now).sleepSlots k = e.sleepSlots k := by
    intro k hactive
    rw [hsleeps k] at hactive ⊢
    split_ifs at hactive ⊢
    · cases hactive
    · rfl
  constructor
  · intro k hk hactive
    have heq := hkept k hactive
    rw [heq] at hactive ⊢
    exact h.task k hk hactive
  · intro k hk l hl hactk hactl
    have heqk := hkept k hactk
    have heql := hkept l hactl
    rw [heqk] at hactk ⊢
    rw [heql] at hactl ⊢
    exact h.inj k hk l hl hactk hactl

end Executor

end OpenIon.Sched.Async
