import OpenIon.Sched.Async.Machine

/-! # Owners of the slots

A slot belongs to the future in it or, while that one is polled, to the future that
was taken out of it. Polling therefore moves futures without changing the owners:
only a spawn gives a slot away, and only a future that has returned `Ready` gives
its slot up.
-/
namespace OpenIon.Sched.Async

variable {M N : ℕ} {w w' : World M N} {idx f : ℕ}

def Phase.polledAt : Phase → ℕ → Option ℕ
  | polling i f _, idx => if i = idx then some f else none
  | _, _ => none

namespace World

/-- The future was accepted by `spawn` and its poll has not returned `Ready`. -/
def Live (w : World M N) (f : ℕ) : Prop := f < w.accepted ∧ w.finished f = false

/-- The future in the slot, or else the one that was taken out of it. -/
def owner (w : World M N) (idx : ℕ) : Option ℕ :=
  (w.exec.slots idx).future.or (w.phase.polledAt idx)

end World

/-- The live futures own the slots that they were given, each its own. -/
structure Owned (w : World M N) : Prop where
  fresh : ∀ f, w.accepted ≤ f → w.finished f = false
  home_lt : ∀ f, w.Live f → w.home f < N
  owner : ∀ idx f, w.owner idx = some f ↔ w.Live f ∧ w.home f = idx

@[simp] theorem Phase.polledAt_polling (i g polled : ℕ) :
    (polling i g polled).polledAt idx = if i = idx then some g else none := rfl

@[simp] theorem Phase.polledAt_scanning (i polled : ℕ) : (scanning i polled).polledAt idx = none := rfl

theorem Phase.polledAt_eq_none {phase : Phase} (h : phase.currentPollTask = none) (idx : ℕ) :
    phase.polledAt idx = none := by
  cases phase with
  | idle | scanning => rfl
  | polling => simp [currentPollTask] at h

theorem Owned.congr (h : Owned w) (howner : w'.owner = w.owner) (haccepted : w'.accepted = w.accepted)
    (hhome : w'.home = w.home) (hfinished : w'.finished = w.finished) : Owned w' := by
  have hlive : ∀ f, w'.Live f ↔ w.Live f := by
    intro f
    rw [World.Live, World.Live, haccepted, hfinished]
  constructor
  · rw [haccepted, hfinished]
    exact h.fresh
  · intro f
    rw [hlive, hhome]
    exact h.home_lt f
  · intro idx f
    rw [howner, hlive, hhome]
    exact h.owner idx f

theorem Owned.insert (h : Owned w) (hidx : idx < N) (hfree : w.owner idx = none)
    (howner : w'.owner = Function.update w.owner idx (some w.accepted))
    (haccepted : w'.accepted = w.accepted + 1)
    (hhome : w'.home = Function.update w.home w.accepted idx)
    (hfinished : w'.finished = w.finished) : Owned w' := by
  have hlive : ∀ f, w'.Live f ↔ f = w.accepted ∨ w.Live f := by
    intro f
    simp only [World.Live, haccepted, hfinished]
    constructor
    · rintro ⟨hlt, hf⟩
      by_cases heq : f = w.accepted
      · exact .inl heq
      · exact .inr ⟨by omega, hf⟩
    · rintro (rfl | ⟨hlt, hf⟩)
      · exact ⟨by omega, h.fresh _ le_rfl⟩
      · exact ⟨by omega, hf⟩
  have hold : ∀ f, w.Live f → w'.home f = w.home f := by
    rintro f ⟨hlt, -⟩
    rw [hhome, Function.update_of_ne (Nat.ne_of_lt hlt)]
  have hnew : w'.home w.accepted = idx := by
    rw [hhome, Function.update_self]
  constructor
  · intro f hf
    rw [hfinished]
    exact h.fresh f (by omega)
  · intro f hf
    rcases (hlive f).mp hf with rfl | hf
    · rw [hnew]
      exact hidx
    · rw [hold f hf]
      exact h.home_lt f hf
  · intro i f
    rw [howner, hlive]
    by_cases hi : i = idx
    · subst hi
      rw [Function.update_self]
      constructor
      · rintro ⟨⟩
        exact ⟨.inl rfl, hnew⟩
      · rintro ⟨rfl | hf, hfi⟩
        · rfl
        · rw [hold f hf] at hfi
          simp [(h.owner i f).mpr ⟨hf, hfi⟩] at hfree
    · rw [Function.update_of_ne hi, h.owner]
      constructor
      · rintro ⟨hf, hfi⟩
        exact ⟨.inr hf, by rw [hold f hf, hfi]⟩
      · rintro ⟨rfl | hf, hfi⟩
        · exact absurd (hfi.symm.trans hnew) hi
        · rw [hold f hf] at hfi
          exact ⟨hf, hfi⟩

theorem Owned.remove (h : Owned w) (hf : w.owner idx = some f)
    (howner : w'.owner = Function.update w.owner idx none) (haccepted : w'.accepted = w.accepted)
    (hhome : w'.home = w.home) (hfinished : w'.finished = Function.update w.finished f true) :
    Owned w' := by
  rcases (h.owner idx f).mp hf with ⟨hflive, hfhome⟩
  have hlive : ∀ g, w'.Live g ↔ w.Live g ∧ g ≠ f := by
    intro g
    rw [World.Live, World.Live, haccepted, hfinished]
    by_cases hg : g = f
    · simp [hg]
    · simp [hg]
  constructor
  · intro g hg
    rw [haccepted] at hg
    have hgf : g ≠ f := by
      rintro rfl
      exact absurd hflive.1 (by omega)
    rw [hfinished, Function.update_of_ne hgf]
    exact h.fresh g hg
  · intro g hg
    rw [hhome]
    exact h.home_lt g ((hlive g).mp hg).1
  · intro i g
    rw [howner, hlive, hhome]
    by_cases hi : i = idx
    · subst hi
      rw [Function.update_self]
      constructor
      · simp
      · rintro ⟨⟨hg, hgf⟩, hgi⟩
        rw [(h.owner i g).mpr ⟨hg, hgi⟩] at hf
        exact absurd (Option.some.inj hf) hgf
    · rw [Function.update_of_ne hi, h.owner]
      constructor
      · rintro ⟨hg, hgi⟩
        refine ⟨⟨hg, ?_⟩, hgi⟩
        rintro rfl
        exact hi (hgi.symm.trans hfhome)
      · rintro ⟨⟨hg, -⟩, hgi⟩
        exact ⟨hg, hgi⟩

end OpenIon.Sched.Async
