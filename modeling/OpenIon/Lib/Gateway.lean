import Mathlib.Algebra.Group.Nat.Defs
import Mathlib.Data.Bool.Basic
import Mathlib.Logic.Function.Basic

/-! # Gateways of an interrupt controller

Each source has a line, which its device raises and lowers. Its gateway forwards a request when the
line is high, and then no other one until the request has been claimed and completed. Lowering the
line does not withdraw a request. `forwarded` counts the requests and `claimed` the claims.
-/
namespace OpenIon.Lib

structure Gateways where
  line : ℕ → Bool
  pending : ℕ → Bool
  inService : ℕ → Bool
  forwarded : ℕ → ℕ
  claimed : ℕ → ℕ

namespace Gateways

def idle : Gateways :=
  ⟨fun _ => false, fun _ => false, fun _ => false, fun _ => 0, fun _ => 0⟩

def forward (g : Gateways) (q : ℕ) : Gateways :=
  if g.line q && !g.pending q && !g.inService q then
    { g with
      pending := Function.update g.pending q true
      forwarded := Function.update g.forwarded q (g.forwarded q + 1) }
  else g

def setLine (g : Gateways) (q : ℕ) (b : Bool) : Gateways :=
  forward { g with line := Function.update g.line q b } q

def claim (g : Gateways) (q : ℕ) : Gateways :=
  { g with
    pending := Function.update g.pending q false
    inService := Function.update g.inService q true
    claimed := Function.update g.claimed q (g.claimed q + 1) }

def complete (g : Gateways) (q : ℕ) : Gateways :=
  forward { g with inService := Function.update g.inService q false } q

/-- Exactly the source `active`, if any, has been claimed and not completed; every high line has a
request that is pending or in service; every request is claimed once or still pending. -/
structure Accounted (g : Gateways) (active : Option ℕ) : Prop where
  inService_iff : ∀ q, g.inService q = true ↔ active = some q
  requested : ∀ q, g.line q = true → g.pending q = true ∨ active = some q
  once : ∀ q, g.forwarded q = g.claimed q + (g.pending q).toNat

variable {g : Gateways} {active : Option ℕ} {q r : ℕ}

theorem idle_accounted : idle.Accounted none :=
  ⟨fun q => by simp [idle], fun q hq => Bool.noConfusion hq, fun q => rfl⟩

@[simp] theorem forward_line : (g.forward q).line = g.line := by
  unfold forward
  split <;> rfl

@[simp] theorem forward_inService : (g.forward q).inService = g.inService := by
  unfold forward
  split <;> rfl

@[simp] theorem forward_claimed : (g.forward q).claimed = g.claimed := by
  unfold forward
  split <;> rfl

theorem forward_pending_of_ne (h : r ≠ q) : (g.forward q).pending r = g.pending r := by
  unfold forward
  split
  · exact Function.update_of_ne h _ _
  · rfl

theorem forward_forwarded_of_ne (h : r ≠ q) : (g.forward q).forwarded r = g.forwarded r := by
  unfold forward
  split
  · exact Function.update_of_ne h _ _
  · rfl

theorem forward_pending_self :
    (g.forward q).pending q = (g.pending q || (g.line q && !g.inService q)) := by
  unfold forward
  split
  · rename_i h
    simp only [Bool.and_eq_true, Bool.not_eq_true'] at h
    simp [h]
  · rename_i h
    cases hp : g.pending q <;> simp_all

theorem forward_once (h : ∀ r, g.forwarded r = g.claimed r + (g.pending r).toNat) (r : ℕ) :
    (g.forward q).forwarded r = (g.forward q).claimed r + ((g.forward q).pending r).toNat := by
  by_cases hr : r = q
  · subst hr
    unfold forward
    split
    · rename_i hcond
      simp only [Bool.and_eq_true, Bool.not_eq_true'] at hcond
      simp [h r, hcond.1.2]
    · exact h r
  · rw [forward_forwarded_of_ne hr, forward_claimed, forward_pending_of_ne hr, h r]

theorem Accounted.setLine (h : g.Accounted active) (q : ℕ) (b : Bool) :
    (g.setLine q b).Accounted active := by
  refine ⟨fun r => ?_, fun r hr => ?_, forward_once h.once⟩
  · rw [Gateways.setLine, forward_inService]
    exact h.inService_iff r
  · replace hr : Function.update g.line q b r = true := by
      rwa [Gateways.setLine, forward_line] at hr
    by_cases hrq : r = q
    · subst hrq
      rw [Gateways.setLine, forward_pending_self]
      cases hs : g.inService r with
      | true => exact .inr ((h.inService_iff r).mp hs)
      | false => simp_all
    · rw [Gateways.setLine, forward_pending_of_ne hrq]
      rw [Function.update_of_ne hrq] at hr
      exact h.requested r hr

theorem Accounted.claim (h : g.Accounted none) (hq : g.pending q = true) :
    (g.claim q).Accounted (some q) := by
  have hidle : ∀ r, g.inService r = false := by
    intro r
    simpa using h.inService_iff r
  refine ⟨fun r => ?_, fun r hr => ?_, fun r => ?_⟩
  · by_cases hrq : r = q
    · subst hrq
      simp [Gateways.claim]
    · simpa [Gateways.claim, Function.update_of_ne hrq, hidle] using Ne.symm hrq
  · by_cases hrq : r = q
    · exact .inr (congrArg some hrq.symm)
    · left
      simpa [Gateways.claim, Function.update_of_ne hrq] using h.requested r hr
  · by_cases hrq : r = q
    · subst hrq
      simp [Gateways.claim, h.once r, hq]
    · simp [Gateways.claim, Function.update_of_ne hrq, h.once r]

theorem Accounted.complete (h : g.Accounted (some q)) : (g.complete q).Accounted none := by
  refine ⟨fun r => ?_, fun r hr => ?_, forward_once h.once⟩
  · rw [Gateways.complete, forward_inService]
    by_cases hrq : r = q
    · subst hrq
      simp
    · have hs : g.inService r ≠ true := fun hs =>
        hrq (Option.some.inj ((h.inService_iff r).mp hs)).symm
      simpa [Function.update_of_ne hrq] using hs
  · left
    replace hr : g.line r = true := by rwa [Gateways.complete, forward_line] at hr
    by_cases hrq : r = q
    · subst hrq
      rw [Gateways.complete, forward_pending_self]
      simp [hr]
    · rw [Gateways.complete, forward_pending_of_ne hrq]
      rcases h.requested r hr with hp | ha
      · exact hp
      · exact absurd (Option.some.inj ha).symm hrq

theorem forward_of_low (h : g.line q = false) : g.forward q = g := by
  rw [forward, h]
  rfl

/-- A request is served: it is claimed, the line is lowered, and it is completed. -/
theorem pending_served (g : Gateways) (q r : ℕ) :
    (((g.claim q).setLine q false).complete q).pending r = (g.pending r && r != q) := by
  have hline : Function.update g.line q false q = false := Function.update_self ..
  rw [Gateways.setLine, forward_of_low hline, Gateways.complete, forward_of_low hline]
  by_cases h : r = q
  · subst h
    simp [Gateways.claim]
  · simp [Gateways.claim, h]

end Gateways

end OpenIon.Lib
