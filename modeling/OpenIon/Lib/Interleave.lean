import OpenIon.Lib.Orbit
import OpenIon.Lib.Run

/-! # Interleaved and separate runs

Several processes take turns; each has a state of its own, and they share an area that a step
may read and write. `Agree s` says which contents of the shared area are the same to a process in
state `s`. When no step changes what another process still needs, every process comes to the
states it comes to when it runs alone.
-/
namespace OpenIon.Lib

variable {ι σ β : Type*} [DecidableEq ι] {step : σ → β → Option (σ × β)}
  {Agree : σ → β → β → Prop}

structure Interleaved (ι σ β : Type*) where
  locals : ι → σ
  shared : β

/-- Process `i` takes a step. -/
def interleave (step : σ → β → Option (σ × β)) (w : Interleaved ι σ β) (i : ι) :
    Option (Interleaved ι σ β) :=
  (step (w.locals i) w.shared).map fun r => ⟨Function.update w.locals i r.1, r.2⟩

/-- Process `i` leaves to the others what they need. -/
def LeavesOthers (step : σ → β → Option (σ × β)) (Agree : σ → β → β → Prop)
    (w : Interleaved ι σ β) (i : ι) : Prop :=
  ∀ s b, step (w.locals i) w.shared = some (s, b) → ∀ j, j ≠ i → Agree (w.locals j) b w.shared

/-- Process `i` is in the state in which it is after `n` steps alone. -/
def Alone (step : σ → β → Option (σ × β)) (Agree : σ → β → β → Prop) (w w' : Interleaved ι σ β)
    (i : ι) (n : ℕ) : Prop :=
  ∃ b, iter (fun p => step p.1 p.2) n (w.locals i, w.shared) = some (w'.locals i, b) ∧
    Agree (w'.locals i) w'.shared b

variable {w m w' : Interleaved ι σ β} {i : ι}

theorem Alone.interleave (htrans : ∀ s a b c, Agree s a b → Agree s b c → Agree s a c)
    (hstep : ∀ s a b s' a', Agree s a b → step s a = some (s', a') →
      ∃ b', step s b = some (s', b') ∧ Agree s' a' b')
    (hleaves : LeavesOthers step Agree m i) (hm : interleave step m i = some w') {j : ι} {n : ℕ}
    (h : Alone step Agree w m j n) : Alone step Agree w w' j (n + if i = j then 1 else 0) := by
  obtain ⟨⟨s, a⟩, hs, rfl⟩ := Option.map_eq_some_iff.mp hm
  obtain ⟨b, hn, hagree⟩ := h
  by_cases hj : j = i
  · subst hj
    obtain ⟨b', hb', hagree'⟩ := hstep _ _ _ _ _ hagree hs
    rw [if_pos rfl]
    refine ⟨b', ?_, ?_⟩
    · dsimp only
      rw [iter_succ_last, hn, Option.bind_some, hb', Function.update_self]
    · dsimp only
      rwa [Function.update_self]
  · rw [if_neg (Ne.symm hj), Nat.add_zero]
    refine ⟨b, ?_, ?_⟩
    · dsimp only
      rwa [Function.update_of_ne hj]
    · dsimp only
      rw [Function.update_of_ne hj]
      exact htrans _ _ _ _ (hleaves s a hs j hj) hagree

/-- In a run of steps that leave the others what they need, the processes run as if alone. -/
theorem Along.alone (htrans : ∀ s a b c, Agree s a b → Agree s b c → Agree s a c)
    (hstep : ∀ s a b s' a', Agree s a b → step s a = some (s', a') →
      ∃ b', step s b = some (s', b') ∧ Agree s' a' b') {acts : List ι}
    (halong : Along (interleave step) (LeavesOthers step Agree) m acts)
    (hrun : run (interleave step) m acts = some w') {n : ℕ} (h : Alone step Agree w m i n) :
    Alone step Agree w w' i (n + acts.count i) := by
  induction acts generalizing m n with
  | nil => exact Option.some.inj hrun ▸ h
  | cons j acts ih =>
    obtain ⟨m', hm', hrest⟩ := run_cons_eq_some.mp hrun
    obtain ⟨hleaves, halong⟩ := halong m' hm'
    have hcount : n + (j :: acts).count i = n + (if j = i then 1 else 0) + acts.count i := by
      rw [List.count_cons, Nat.add_assoc, Nat.add_comm (acts.count i)]
      simp only [beq_iff_eq]
    rw [hcount]
    exact ih halong hrest (h.interleave htrans hstep hleaves hm')

end OpenIon.Lib
