import Mathlib.Data.List.Basic

/-! # Programs that may stop early

A program changes a state and returns a value, or stops with an error. What it did to the state
before it stopped stays done. `Ensures` is a rule of pre- and postconditions with one postcondition
for each of the two ends.
-/
namespace OpenIon.Lib

def Fallible (σ ε α : Type) : Type := σ → Except ε α × σ

variable {σ ε α β : Type}

namespace Fallible

/-- Goes on with `f` where a run has returned a value. -/
def andThen : Except ε α × σ → (α → Fallible σ ε β) → Except ε β × σ
  | (.ok a, s), f => f a s
  | (.error e, s), _ => (.error e, s)

instance instMonad : Monad (Fallible σ ε) where
  pure a := fun s => (.ok a, s)
  bind p f := fun s => andThen (p s) f

def stop (e : ε) : Fallible σ ε α := fun s => (.error e, s)

def get : Fallible σ ε σ := fun s => (.ok s, s)

def update (f : σ → σ) : Fallible σ ε Unit := fun s => (.ok (), f s)

/-- The turns `i`, `i + 1`, … of a loop, `n` of them. -/
def forFrom (body : ℕ → Fallible σ ε Unit) : ℕ → ℕ → Fallible σ ε Unit
  | _, 0 => pure ()
  | i, n + 1 => do
    body i
    forFrom body (i + 1) n

def forRange (n : ℕ) (body : ℕ → Fallible σ ε Unit) : Fallible σ ε Unit := forFrom body 0 n

/-- From `s` the program returns as `Q` says or stops as `R` says. -/
structure Ensures (p : Fallible σ ε α) (s : σ) (Q : α → σ → Prop) (R : ε → σ → Prop) : Prop where
  returns : ∀ a s', p s = (.ok a, s') → Q a s'
  stops : ∀ e s', p s = (.error e, s') → R e s'

variable {s : σ} {Q : α → σ → Prop} {R : ε → σ → Prop}

theorem ensures_of_ok {p : Fallible σ ε α} {a : α} {s₁ : σ} (hrun : p s = (.ok a, s₁))
    (h : Q a s₁) : Ensures p s Q R where
  returns b s' hrun' := by
    cases hrun.symm.trans hrun'
    exact h
  stops e s' hrun' := by cases hrun.symm.trans hrun'

theorem ensures_of_error {p : Fallible σ ε α} {e : ε} {s₁ : σ} (hrun : p s = (.error e, s₁))
    (h : R e s₁) : Ensures p s Q R where
  returns a s' hrun' := by cases hrun.symm.trans hrun'
  stops e' s' hrun' := by
    cases hrun.symm.trans hrun'
    exact h

theorem ensures_pure {a : α} (h : Q a s) : Ensures (pure a) s Q R := ensures_of_ok rfl h

theorem ensures_stop {e : ε} (h : R e s) : Ensures (stop e) s Q R := ensures_of_error rfl h

theorem ensures_get {Q : σ → σ → Prop} (h : Q s s) : Ensures get s Q R := ensures_of_ok rfl h

theorem ensures_update {f : σ → σ} {Q : Unit → σ → Prop} (h : Q () (f s)) :
    Ensures (update f) s Q R := ensures_of_ok rfl h

theorem Ensures.bind {p : Fallible σ ε α} {f : α → Fallible σ ε β} {Q : β → σ → Prop}
    (h : Ensures p s (fun a s' => Ensures (f a) s' Q R) R) : Ensures (p >>= f) s Q R := by
  have hbind : (p >>= f) s = andThen (p s) f := rfl
  cases hp : p s with
  | mk out s' =>
    rw [hp] at hbind
    cases out with
    | error e => exact ensures_of_error hbind (h.stops e s' hp)
    | ok a =>
      have hnext := h.returns a s' hp
      exact ⟨fun b s'' hrun => hnext.returns b s'' (hbind.symm.trans hrun),
        fun e s'' hrun => hnext.stops e s'' (hbind.symm.trans hrun)⟩

theorem Ensures.mono {p : Fallible σ ε α} {Q' : α → σ → Prop} {R' : ε → σ → Prop}
    (h : Ensures p s Q R) (hQ : ∀ a s', Q a s' → Q' a s') (hR : ∀ e s', R e s' → R' e s') :
    Ensures p s Q' R' :=
  ⟨fun a s' hrun => hQ a s' (h.returns a s' hrun), fun e s' hrun => hR e s' (h.stops e s' hrun)⟩

/-- The rule for loops: what the turns keep holds at the end, and where a turn stops the loop
stops. -/
theorem ensures_forRange {n : ℕ} {body : ℕ → Fallible σ ε Unit} {I : ℕ → σ → Prop}
    (hbody : ∀ i < n, ∀ s, I i s → Ensures (body i) s (fun _ => I (i + 1)) R) (hs : I 0 s) :
    Ensures (forRange n body) s (fun _ => I n) R := by
  suffices h : ∀ m i s, i + m = n → I i s → Ensures (forFrom body i m) s (fun _ => I n) R from
    h n 0 s (Nat.zero_add n) hs
  intro m
  induction m with
  | zero =>
    rintro i s rfl hi
    exact ensures_pure hi
  | succ m ih =>
    intro i s hn hi
    apply Ensures.bind
    exact (hbody i (by omega) s hi).mono (fun _ s' h => ih (i + 1) s' (by omega) h) fun _ _ h => h

end Fallible

end OpenIon.Lib
